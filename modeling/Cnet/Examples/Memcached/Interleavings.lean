import Cnet.Support.Critical
import Cnet.Examples.Memcached.StoreRefinement

/-!
# Sessions in several threads

`storeItem`, `getItem` and `deleteItem` lock the shard of the key and work on it; the counter
is atomic, and shared. Calls on different shards interleave in any way, their accesses to
the counter between those to the shards. What the sessions are told is what they are told
where every call is one step.
-/

namespace Cnet.Examples.Memcached.MemcacheServer

open Cnet.Support Cnet.Base
open Cnet.Net (Bytes)

def Request.key : Request → Bytes
  | .store _ item => item.key
  | .get key => key
  | .delete key => key

/-- What a call does with the items of its shard, after it has taken the lock. -/
def act (r : Request) (items : List Item) : Option (Act (List Item) UInt64 Response) :=
  let it := Buckets.find Item.key r.key items
  match r with
  | .store policy item => do
    assert (item.neededBytes = 0)
    match branch item policy it with
    | .refuse => some (.done (.stored false it.isSome) items)
    | .leave => some (.done (.stored true it.isSome) items)
    | .put newItem => some (.count fun cas => do
      let newItem ← newItem cas
      some (.stored true it.isSome,
        Buckets.insert Item.key newItem (Buckets.erase Item.key item.key items)))
  | .get _ => some (.done (.got it) items)
  | .delete key => some (.done (.deleted it.isSome) (Buckets.erase Item.key key items))

/-- The shards, with the increment of `g_cas`. -/
def object (hash : Bytes → Nat) : Object Nat (List Item) UInt64 Request Response where
  part r := shard hash r.key
  next cas := cas + 1
  act := act

/-- The server that the shards and the counter make up. -/
def ofShared (shared : Shared Nat (List Item) UInt64) : MemcacheServer :=
  ⟨shared.cells, shared.counter⟩

variable {hash : Bytes → Nat}

/-- A call that nothing interrupts is the member function. -/
theorem serve_ofShared (r : Request) (shared : Shared Nat (List Item) UInt64) :
    (ofShared shared).serve hash r =
      ((object hash).perform r shared).map fun p => (p.1, ofShared p.2) := by
  cases r with
  | get key =>
    rw [Object.perform]
    simp only [object, act, Option.bind_eq_bind, Option.bind_some, Option.map_some,
      Function.update_eq_self]
    rfl
  | delete key => rfl
  | store policy item =>
    rw [Object.perform, MemcacheServer.serve, storeItem]
    simp only [object, act]
    have hitems : (ofShared shared).items hash item.key =
        shared.cells (shard hash (Request.store policy item).key) := rfl
    by_cases hneeded : item.neededBytes = 0
    · rw [assert_pos hneeded, hitems]
      simp only [Option.bind_eq_bind, Option.bind_some]
      set items := shared.cells (shard hash (Request.store policy item).key)
      have hkey : (Request.store policy item).key = item.key := rfl
      have hsame : (⟨Function.update shared.cells (shard hash item.key) items, shared.counter⟩ :
          Shared Nat (List Item) UInt64) = shared :=
        congrArg (Shared.mk · shared.counter) (Function.update_eq_self _ _)
      rw [hkey]
      cases branch item policy (Buckets.find Item.key item.key items) with
      | refuse => simp [hsame]
      | leave => simp [hsame]
      | put newItem =>
        cases hnew : newItem (shared.counter + 1) with
        | none => simp [ofShared, hnew]
        | some x => simp [ofShared, hnew]; rfl
    · rw [assert, if_neg hneeded]
      rfl

/-- Every call of every session has its place in one order, between the call and its return,
in which the member functions run one after the other: the sessions see nothing else, and
this is what is in the shards once no call is under way. -/
theorem calls_linearize (hash : Bytes → Nat) {T : Type} [DecidableEq T]
    {actions : List (Object.Action Request Response T)}
    {s : Object.State Nat (List Item) UInt64 Request Response T}
    (h : run (object hash).step (Object.start ⟨new.shards_, new.g_cas⟩) actions = some s) :
    ∃ steps server, run (Atomic.step fun r (s : MemcacheServer) => s.serve hash r)
        (Atomic.start new) steps = some ⟨server, fun t => (s.phases t).call⟩ ∧
      steps.filterMap Atomic.Action.event = actions.filterMap Object.Action.event ∧
      ((∀ t, s.phases t = .idle) → server = ofShared s.shared) := by
  obtain ⟨steps, hsteps, hevents, -⟩ :=
    Object.run_simulates (fun r (s : MemcacheServer) => s.serve hash r) ofShared serve_ofShared
      (Object.inv_start _) h
  refine ⟨steps, ofShared s.view, hsteps, hevents, fun hquiet => ?_⟩
  rw [Object.view_quiet hquiet]

/-- A `set` and a `get` at the same time: the `get` waits for the lock. -/
def sampleActions : List (Object.Action Request Response Bool) :=
  [.call true (.store .kSet sampleItem), .call false (.get (chars "k")), .lock true, .find true,
    .count true, .write true, .ret true (.stored true false), .lock false]

theorem calls_linearize_sample :
    ∃ s, run (object fun _ => 0).step (Object.start ⟨new.shards_, new.g_cas⟩) sampleActions =
        some s ∧
      ∃ steps server, run (Atomic.step fun r (s : MemcacheServer) => s.serve (fun _ => 0) r)
          (Atomic.start new) steps = some ⟨server, fun t => (s.phases t).call⟩ ∧
        steps.filterMap Atomic.Action.event = sampleActions.filterMap Object.Action.event ∧
        ((∀ t, s.phases t = .idle) → server = ofShared s.shared) :=
  have hrun : ∃ s, run (object fun _ => 0).step (Object.start ⟨new.shards_, new.g_cas⟩)
    sampleActions = some s := ⟨_, rfl⟩
  hrun.imp fun _ h => ⟨h, calls_linearize _ h⟩

theorem branch_setCas (item : Item) {policy : Item.UpdatePolicy} (it : Option Item)
    (happend : policy ≠ .kAppend) (hprepend : policy ≠ .kPrepend) :
    branch item policy it = .refuse ∨ branch item policy it = .leave ∨
      branch item policy it = .put fun cas => some (item.setCas cas) := by
  cases policy with
  | kInvalid => exact .inr (.inl rfl)
  | kSet => exact .inr (.inr rfl)
  | kAdd => cases it with
    | none => exact .inr (.inr rfl)
    | some _ => exact .inl rfl
  | kReplace => cases it with
    | none => exact .inl rfl
    | some _ => exact .inr (.inr rfl)
  | kAppend => exact absurd rfl happend
  | kPrepend => exact absurd rfl hprepend
  | kCas => cases it with
    | none => exact .inl rfl
    | some oldItem =>
      by_cases hcas : oldItem.cas_ = item.cas_
      · exact .inr (.inr (if_pos hcas))
      · exact .inl (if_neg hcas)

/-- Only an update can fail in the middle: of an item that is not complete, or of one that is
put together with the old one. -/
theorem request_of_act_none {r : Request} {items : List Item} {cas : UInt64}
    (h : act r items = none ∨ ∃ k, act r items = some (.count k) ∧ k cas = none) :
    ∃ policy item, r = .store policy item ∧
      (item.neededBytes ≠ 0 ∨ policy = .kAppend ∨ policy = .kPrepend) := by
  cases r with
  | get key =>
    rcases h with h | ⟨k, h, -⟩
    · exact absurd h (Option.some_ne_none _)
    · exact absurd (Option.some.inj h) Act.done_ne_count
  | delete key =>
    rcases h with h | ⟨k, h, -⟩
    · exact absurd h (Option.some_ne_none _)
    · exact absurd (Option.some.inj h) Act.done_ne_count
  | store policy item =>
    refine ⟨policy, item, rfl, ?_⟩
    by_contra hno
    push Not at hno
    obtain ⟨hneeded, happend, hprepend⟩ := hno
    rw [act, hneeded, assert_pos rfl] at h
    simp only [Option.bind_eq_bind, Option.bind_some] at h
    rcases branch_setCas item (Buckets.find Item.key (Request.store policy item).key items)
      happend hprepend with hb | hb | hb <;> rw [hb] at h <;> rcases h with h | ⟨k, h, hk⟩
    · exact absurd h (Option.some_ne_none _)
    · exact absurd (Option.some.inj h) Act.done_ne_count
    · exact absurd h (Option.some_ne_none _)
    · exact absurd (Option.some.inj h) Act.done_ne_count
    · exact absurd h (Option.some_ne_none _)
    · obtain rfl := Act.count.inj (Option.some.inj h)
      exact absurd hk (Option.some_ne_none _)

/-- In every interleaving, two sessions are never in one shard at a time, and as long as a call
is under way one of the sessions can go on, or one has no step any more, since an assert stops
the process there: in an update of an item that is not complete, or one that puts values
together. -/
theorem calls_exclusive_and_live (hash : Bytes → Nat) {T : Type} [DecidableEq T]
    {actions : List (Object.Action Request Response T)}
    {s : Object.State Nat (List Item) UInt64 Request Response T}
    (h : run (object hash).step (Object.start ⟨new.shards_, new.g_cas⟩) actions = some s) :
    (∀ t t' r r', (s.phases t).held = some r → (s.phases t').held = some r' →
      shard hash r.key = shard hash r'.key → t = t') ∧
    ((∃ t, s.phases t ≠ .idle) → Object.CanGoOn (object hash) s ∨
      ∃ t policy item items, s.phases t = .found (.store policy item) items ∧
        (item.neededBytes ≠ 0 ∨ policy = .kAppend ∨ policy = .kPrepend) ∧
        ∀ x : Object.Action Request Response T, x.thread = t → (object hash).step s x = none) := by
  obtain ⟨-, -, -, hinv⟩ :=
    Object.run_simulates (fun r (s : MemcacheServer) => s.serve hash r) ofShared serve_ofShared
      (Object.inv_start _) h
  refine ⟨fun t t' r r' ht ht' hshard => hinv.eq_of_held ht ht' hshard, ?_⟩
  rintro ⟨t, hbusy⟩
  refine (Object.canGoOn hinv hbusy).imp_right ?_
  rintro ⟨t', habort⟩
  obtain ⟨r, items, hfound, hfails⟩ := habort
  obtain ⟨policy, item, rfl, hcause⟩ := request_of_act_none hfails
  have haborts : Object.Aborts (object hash) s t' := ⟨_, items, hfound, hfails⟩
  exact ⟨t', policy, item, items, hfound, hcause, fun _ hx => haborts.step_none hx⟩

theorem calls_exclusive_and_live_sample :
    ∃ s, run (object fun _ => 0).step (Object.start ⟨new.shards_, new.g_cas⟩) sampleActions =
        some s ∧
      (∀ t t' r r', (s.phases t).held = some r → (s.phases t').held = some r' →
        shard (fun _ => 0) r.key = shard (fun _ => 0) r'.key → t = t') ∧
      ((∃ t, s.phases t ≠ .idle) → Object.CanGoOn (object fun _ => 0) s ∨
        ∃ t policy item items, s.phases t = .found (.store policy item) items ∧
          (item.neededBytes ≠ 0 ∨ policy = .kAppend ∨ policy = .kPrepend) ∧
          ∀ x : Object.Action Request Response Bool, x.thread = t →
            (object fun _ => 0).step s x = none) :=
  have hrun : ∃ s, run (object fun _ => 0).step (Object.start ⟨new.shards_, new.g_cas⟩)
    sampleActions = some s := ⟨_, rfl⟩
  hrun.imp fun _ h => ⟨h, calls_exclusive_and_live _ h⟩

end Cnet.Examples.Memcached.MemcacheServer
