import Cnet.Net.TcpServer

/-!
# Where every connection is

A connection goes through the same few stages whatever the others do. In each stage it is
known what its own `state_` and channel are, what has happened to it, whether it is in
`connections_`, which functors its own loop has for it, and whether loop `0` has its
removal. A step takes one connection to its next stage, and leaves the others where they
are.
-/

namespace Cnet.Net.Servers

open Cnet.Base (snprintf_append_repr append_repr_injective)
open Cnet.Support

/-- The connection of the functor. -/
def Functor.connection : Functor → Nat
  | .connectEstablished c | .connectDestroyed c | .removeConnectionInLoop c => c

/-- The connection of a functor that runs in the connection's own loop. -/
def Functor.task : Functor → Option Nat
  | .connectEstablished c | .connectDestroyed c => some c
  | .removeConnectionInLoop _ => none

theorem Functor.connection_of_task {f : Functor} {c : Nat} (h : f.task = some c) :
    f.connection = c := by
  cases f <;> first | exact Option.some.inj h | exact absurd h (by simp [task])

namespace Position

def activeChannels : Position → List Nat
  | .handling activeChannels _ | .handler activeChannels _ _ => activeChannels
  | _ => []

/-- The channels whose events are still to be handled. -/
def todo : Position → List Nat
  | .handling _ todo | .handler _ _ todo => todo
  | _ => []

def current : Position → Option Nat
  | .handler _ c _ => some c
  | _ => none

end Position

namespace World

/-- The functors that loop `l` has still to run, in order. -/
def queue (l : Nat) (w : World) : List Functor := (w.position l).batch ++ w.pendingFunctors_ l

/-- Those among them for the connection. -/
def tasks (l c : Nat) (w : World) : List Functor :=
  (w.queue l).filter fun f => f.task = some c

/-- How often the removal of the connection waits in loop `0`. -/
def removals (c : Nat) (w : World) : Nat := (w.queue 0).count (.removeConnectionInLoop c)

def isListed (name : String) (c : Nat) (w : World) : Bool := w.connections_.lookup name = some c

def loopOf (c : Nat) (w : World) : Option Nat := w.connections[c]?.map Connection.loop_

/-- What happens to a connection until it is closed, with `k` calls of `handleEvent`. -/
def opened (l k : Nat) : List Event := .connectEstablished l :: List.replicate k (.handleEvent l)

/-- The functor that the destructor queues. -/
def destroying (swept : Bool) (c : Nat) : List Functor :=
  if swept then [.connectDestroyed c] else []

/-- What the server and the loops hold of a connection. -/
structure Holds (w : World) (c : Nat) (conn : Connection) (reading added : Bool)
    (history : List Event) (listed : Bool) (tasks : List Functor) (removals : Nat) : Prop where
  reading : conn.isReading = reading
  added : conn.addedToLoop_ = added
  history : conn.history = history
  listed : w.isListed conn.name_ c = listed
  tasks : w.tasks conn.loop_ c = tasks
  removals : w.removals c = removals

/-- The stages of a connection. The destructor may have taken it out of `connections_` at
any time before it was closed. -/
inductive Life (w : World) (c : Nat) (conn : Connection) : Prop
  | connecting (swept : Bool) (hswept : swept = true → w.server ≠ .alive)
      (hstate : conn.state_ = .kConnecting)
      (h : w.Holds c conn false false [] (!swept) (.connectEstablished c :: destroying swept c) 0)
  | up (k : Nat) (swept : Bool) (hswept : swept = true → w.server ≠ .alive)
      (hstate : conn.state_ = .kConnected ∨ conn.state_ = .kDisconnecting)
      (h : w.Holds c conn true true (opened conn.loop_ k) (!swept) (destroying swept c) 0)
  | closing (k : Nat) (swept : Bool) (hswept : swept = true → w.server ≠ .alive)
      (hstate : conn.state_ = .kDisconnected)
      (h : w.Holds c conn false true (opened conn.loop_ k) (!swept) (destroying swept c) 0)
  | closed (k : Nat) (hstate : conn.state_ = .kDisconnected)
      (h : w.Holds c conn false true (opened conn.loop_ k ++ [.closeCallback]) true [] 1)
  | removed (k : Nat) (hstate : conn.state_ = .kDisconnected)
      (h : w.Holds c conn false true (opened conn.loop_ k ++ [.closeCallback, .erase 1]) false
        [.connectDestroyed c] 0)
  | gone (k : Nat) (hstate : conn.state_ = .kDisconnected)
      (h : w.Holds c conn false false
        (opened conn.loop_ k ++ [.closeCallback, .erase 1, .connectDestroyed conn.loop_]) false []
        0)
  | swept (k : Nat) (hstate : conn.state_ = .kDisconnected) (hdead : w.server ≠ .alive)
      (h : w.Holds c conn false false (opened conn.loop_ k ++ [.connectDestroyed conn.loop_]) false
        [] 0)

variable {s : Settings} {w w' : World}

/-- No step concerns the connection `d`. -/
structure Untouched (d : Nat) (w w' : World) : Prop where
  connection : w'.connections[d]? = w.connections[d]?
  listed : ∀ name, w'.isListed name d = w.isListed name d
  tasks : ∀ l, w'.tasks l d = w.tasks l d
  removals : w'.removals d = w.removals d
  alive : w'.server = .alive → w.server = .alive

theorem Holds.frame {c : Nat} {conn : Connection} {reading added listed : Bool}
    {history : List Event} {tasks : List Functor} {removals : Nat} (h : Untouched c w w')
    (hw : w.Holds c conn reading added history listed tasks removals) :
    w'.Holds c conn reading added history listed tasks removals where
  reading := hw.reading
  added := hw.added
  history := hw.history
  listed := (h.listed _).trans hw.listed
  tasks := (h.tasks _).trans hw.tasks
  removals := h.removals.trans hw.removals

theorem Life.frame {c : Nat} {conn : Connection} (h : Untouched c w w') (hw : w.Life c conn) :
    w'.Life c conn := by
  have hdead : w.server ≠ .alive → w'.server ≠ .alive := mt h.alive
  cases hw with
  | connecting b hb hstate hw => exact .connecting b (hdead ∘ hb) hstate (hw.frame h)
  | up k b hb hstate hw => exact .up k b (hdead ∘ hb) hstate (hw.frame h)
  | closing k b hb hstate hw => exact .closing k b (hdead ∘ hb) hstate (hw.frame h)
  | closed k hstate hw => exact .closed k hstate (hw.frame h)
  | removed k hstate hw => exact .removed k hstate (hw.frame h)
  | gone k hstate hw => exact .gone k hstate (hw.frame h)
  | swept k hstate hd hw => exact .swept k hstate (hdead hd) (hw.frame h)

namespace Untouched

variable {c d l : Nat}

/-- A step that changes no queue, nor `connections_`. -/
theorem of_queue_eq (hconnection : w'.connections[d]? = w.connections[d]?)
    (hlisted : w'.connections_ = w.connections_) (hqueue : ∀ l, w'.queue l = w.queue l)
    (hserver : w'.server = w.server) : Untouched d w w' where
  connection := hconnection
  listed name := by rw [isListed, isListed, hlisted]
  tasks l := by rw [World.tasks, World.tasks, hqueue]
  removals := by rw [World.removals, World.removals, hqueue]
  alive ha := hserver ▸ ha

theorem setConnection (hne : c ≠ d) (conn : Connection) :
    Untouched d w (w.setConnection c conn) :=
  .of_queue_eq (List.getElem?_set_ne hne) rfl (fun _ => rfl) rfl

end Untouched

/-- A change of position that leaves the batch. -/
theorem queue_setPosition {l : Nat} {p : Position} (h : p.batch = (w.position l).batch) (m : Nat) :
    (w.setPosition l p).queue m = w.queue m := by
  rw [queue, queue, setPosition]
  dsimp only
  by_cases hm : m = l
  · rw [hm, Function.update_self, h]
  · rw [Function.update_of_ne hm]

theorem queue_queueInLoop (l : Nat) (f : Functor) (m : Nat) :
    (w.queueInLoop l f).queue m = w.queue m ++ if m = l then [f] else [] := by
  rw [queue, queue, queueInLoop]
  dsimp only
  by_cases hm : m = l
  · rw [hm, Function.update_self, if_pos rfl, List.append_assoc]
  · rw [Function.update_of_ne hm, if_neg hm, List.append_nil]

/-- The next functor of the batch is taken out of the queue. -/
theorem queue_functors {l : Nat} {f : Functor} {batch : List Functor}
    (h : w.position l = .functors (f :: batch)) (m : Nat) :
    w.queue m = (if m = l then [f] else []) ++ (w.setPosition l (.functors batch)).queue m := by
  rw [queue, queue, setPosition]
  dsimp only
  by_cases hm : m = l
  · rw [hm, h, Function.update_self, if_pos rfl]
    rfl
  · rw [Function.update_of_ne hm, if_neg hm, List.nil_append]

/-- `doPendingFunctors` takes the queue as it is. -/
theorem queue_doPendingFunctors {l : Nat} {activeChannels : List Nat}
    (h : w.position l = .handling activeChannels []) (m : Nat) :
    queue m { w.setPosition l (.functors (w.pendingFunctors_ l)) with
      pendingFunctors_ := Function.update w.pendingFunctors_ l [] } = w.queue m := by
  rw [queue, queue, setPosition]
  dsimp only
  by_cases hm : m = l
  · rw [hm, h, Function.update_self, Function.update_self]
    exact List.append_nil _
  · rw [Function.update_of_ne hm, Function.update_of_ne hm]

theorem tasks_queueInLoop (l : Nat) (f : Functor) (m d : Nat) :
    (w.queueInLoop l f).tasks m d =
      w.tasks m d ++ if m = l ∧ f.task = some d then [f] else [] := by
  rw [tasks, tasks, queue_queueInLoop, List.filter_append]
  by_cases hm : m = l
  · by_cases hf : f.task = some d <;> simp [hm, hf]
  · simp [hm]

theorem tasks_functors {l : Nat} {f : Functor} {batch : List Functor}
    (h : w.position l = .functors (f :: batch)) (m d : Nat) :
    w.tasks m d = (if m = l ∧ f.task = some d then [f] else []) ++
      (w.setPosition l (.functors batch)).tasks m d := by
  rw [tasks, tasks, queue_functors h, List.filter_append]
  by_cases hm : m = l
  · by_cases hf : f.task = some d <;> simp [hm, hf]
  · simp [hm]

theorem removals_queueInLoop (l : Nat) (f : Functor) (d : Nat) :
    (w.queueInLoop l f).removals d =
      w.removals d + if l = 0 ∧ f = .removeConnectionInLoop d then 1 else 0 := by
  rw [removals, removals, queue_queueInLoop, List.count_append]
  by_cases hl : l = 0
  · by_cases hf : f = .removeConnectionInLoop d <;> simp [hl, hf]
  · simp [hl, Ne.symm hl]

theorem removals_functors {l : Nat} {f : Functor} {batch : List Functor}
    (h : w.position l = .functors (f :: batch)) (d : Nat) :
    w.removals d = (if l = 0 ∧ f = .removeConnectionInLoop d then 1 else 0) +
      (w.setPosition l (.functors batch)).removals d := by
  rw [removals, removals, queue_functors h, List.count_append]
  by_cases hl : l = 0
  · by_cases hf : f = .removeConnectionInLoop d <;> simp [hl, hf]
  · simp [hl, Ne.symm hl]

namespace Untouched

variable {c d l : Nat} {f : Functor}

theorem queueInLoop (hne : f.connection ≠ d) : Untouched d w (w.queueInLoop l f) where
  connection := rfl
  listed _ := rfl
  tasks m := by
    have htask : f.task ≠ some d := fun h => hne (Functor.connection_of_task h)
    rw [tasks_queueInLoop, if_neg fun h => htask h.2, List.append_nil]
  removals := by
    have hremoval : f ≠ .removeConnectionInLoop d := by
      rintro rfl
      exact hne rfl
    rw [removals_queueInLoop, if_neg fun h => hremoval h.2, Nat.add_zero]
  alive h := h

theorem functors {batch : List Functor} (h : w.position l = .functors (f :: batch))
    (hne : f.connection ≠ d) : Untouched d w (w.setPosition l (.functors batch)) where
  connection := rfl
  listed _ := rfl
  tasks m := by
    have htask : f.task ≠ some d := fun h => hne (Functor.connection_of_task h)
    rw [tasks_functors h, if_neg fun h => htask h.2, List.nil_append]
  removals := by
    have hremoval : f ≠ .removeConnectionInLoop d := by
      rintro rfl
      exact hne rfl
    rw [removals_functors h, if_neg fun h => hremoval h.2, Nat.zero_add]
  alive h := h

/-- An entry of another connection is erased. -/
theorem erase {name : String} (hlookup : w.connections_.lookup name = some c) (hne : c ≠ d) :
    Untouched d w { w with connections_ := w.connections_.erase name } where
  connection := rfl
  listed name' := by
    rw [isListed, isListed]
    dsimp only
    by_cases hname : name' = name
    · rw [hname, AList.lookup_erase, hlookup]
      simp [hne]
    · rw [AList.lookup_erase_ne hname]
  tasks _ := rfl
  removals := rfl
  alive h := h

end Untouched

/-- The buffer holds the whole number. -/
theorem connName_eq {i : Nat} (h : i ≤ intMax) :
    connName s i = s.name_ ++ ("-" ++ s.ipPort_ ++ "#") ++ Nat.repr i := by
  have hroom : ("-" ++ s.ipPort_ ++ "#").length + 10 < 64 := by
    have hfits := s.fits
    rw [String.length_append, String.length_append]
    show 1 + s.ipPort_.length + 1 + 10 < 64
    omega
  rw [connName, snprintf_append_repr (Nat.lt_of_le_of_lt h (by decide)) hroom]
  exact String.append_assoc.symm

/-- No two connections have one name. -/
theorem connName_injective {i j : Nat} (hi : i ≤ intMax) (hj : j ≤ intMax)
    (h : connName s i = connName s j) : i = j := by
  rw [connName_eq hi, connName_eq hj] at h
  exact append_repr_injective h

/-- The functor waits in the loop that is to run it. -/
def Owns (l : Nat) (w : World) : Functor → Prop
  | .connectEstablished c | .connectDestroyed c => w.loopOf c = some l
  | .removeConnectionInLoop c => l = 0 ∧ (w.loopOf c).isSome = true

/-- The events that loop `l` has still to handle are of different channels, all watched. -/
structure Handling (l : Nat) (w : World) : Prop where
  nodup : (w.position l).todo.Nodup
  active : ∀ c ∈ (w.position l).todo, c ∈ (w.position l).activeChannels
  ready : ∀ c ∈ (w.position l).todo, w.isReady l c = true
  current : ∀ c ∈ (w.position l).current, c ∉ (w.position l).todo

/-- The invariant, but for the stages of the connections. -/
structure Base (s : Settings) (w : World) : Prop where
  count : w.nextConnId_ = w.connections.length + 1
  bounded : w.nextConnId_ ≤ intMax
  named : ∀ c conn, w.connections[c]? = some conn → conn.name_ = connName s (c + 1)
  entry : ∀ name c, w.connections_.lookup name = some c →
    c < w.connections.length ∧ name = connName s (c + 1)
  owned : ∀ l, ∀ f ∈ w.queue l, w.Owns l f
  handling : ∀ l, w.Handling l
  closing : ∀ l c, w.closing l = some c →
    w.loopOf c = some l ∧ (w.server = .alive → ∃ conn k, w.connections[c]? = some conn ∧
      conn.state_ = .kDisconnected ∧ conn.history = opened l k)
  dead : w.server ≠ .alive → ∀ c, .removeConnectionInLoop c ∉ w.queue 0
  emptied : w.server = .destroyed → ∀ name, w.connections_.lookup name = none
  dangling : w.dangling = []

structure Inv (s : Settings) (w : World) : Prop where
  base : w.Base s
  life : ∀ c conn, w.connections[c]? = some conn → w.Life c conn

theorem inv_new (s : Settings) : new.Inv s where
  base :=
    { count := rfl
      bounded := by decide
      named := fun c _ h => absurd h (by simp [new])
      entry := fun name c h => absurd h (by simp [new])
      owned := fun _ f h => absurd h (by simp [queue, new, Position.batch])
      handling := fun _ => ⟨List.nodup_nil, List.forall_mem_nil _, List.forall_mem_nil _,
        fun _ h => absurd h (by simp [new, Position.current])⟩
      closing := fun _ _ h => absurd h (by simp [new])
      dead := fun h => absurd rfl h
      emptied := fun _ _ => rfl
      dangling := rfl }
  life := fun c _ h => absurd h (by simp [new])

theorem Owns.mono {l : Nat} (hloop : ∀ c, w'.loopOf c = w.loopOf c) {f : Functor}
    (h : w.Owns l f) : w'.Owns l f := by
  cases f with
  | connectEstablished c => exact (hloop c).trans h
  | connectDestroyed c => exact (hloop c).trans h
  | removeConnectionInLoop c => exact ⟨h.1, (hloop c).symm ▸ h.2⟩

theorem Handling.of_todo_nil {l : Nat} (h : (w.position l).todo = [])
    : w.Handling l where
  nodup := h ▸ List.nodup_nil
  active := h ▸ List.forall_mem_nil _
  ready := h ▸ List.forall_mem_nil _
  current _ _ := h ▸ List.not_mem_nil

section SetConnection

variable {c : Nat} {conn conn' : Connection}

theorem loopOf_eq (hc : w.connections[c]? = some conn) : w.loopOf c = some conn.loop_ := by
  rw [loopOf, hc, Option.map_some]

theorem getElem?_setConnection_self (hc : w.connections[c]? = some conn) (conn' : Connection) :
    (w.setConnection c conn').connections[c]? = some conn' :=
  List.getElem?_set_self (List.getElem?_eq_some_iff.mp hc).1

theorem getElem?_setConnection_ne {d : Nat} (hne : c ≠ d) :
    (w.setConnection c conn').connections[d]? = w.connections[d]? :=
  List.getElem?_set_ne hne

theorem loopOf_setConnection (hc : w.connections[c]? = some conn)
    (hloop : conn'.loop_ = conn.loop_) (d : Nat) :
    (w.setConnection c conn').loopOf d = w.loopOf d := by
  by_cases hd : c = d
  · subst hd
    rw [loopOf_eq hc, loopOf_eq (getElem?_setConnection_self hc conn'), hloop]
  · rw [loopOf, loopOf, getElem?_setConnection_ne hd]

theorem isReady_setConnection_ne {d : Nat} (hne : c ≠ d) (l : Nat) :
    (w.setConnection c conn').isReady l d = w.isReady l d := by
  rw [isReady, isReady, getElem?_setConnection_ne hne]

theorem Handling.setConnection {l : Nat} (h : w.Handling l)
    (hready : c ∈ (w.position l).todo → (w.setConnection c conn').isReady l c = true) :
    (w.setConnection c conn').Handling l where
  nodup := h.nodup
  active := h.active
  ready d hd := by
    by_cases hne : c = d
    · exact hne ▸ hready (hne ▸ hd)
    · rw [isReady_setConnection_ne hne]
      exact h.ready d hd
  current := h.current

theorem loop_of_isReady {l : Nat} (hc : w.connections[c]? = some conn)
    (h : w.isReady l c = true) : conn.loop_ = l := by
  rw [isReady, hc] at h
  simp only [Option.any_some, Bool.and_eq_true, decide_eq_true_eq] at h
  exact h.1.1

/-- A connection changes, but not its name nor its loop. It is no longer to be handled if
it is not watched any more, and it is not being closed if its history goes on. -/
theorem Base.setConnection (h : w.Base s) (hc : w.connections[c]? = some conn)
    (hname : conn'.name_ = conn.name_) (hloop : conn'.loop_ = conn.loop_)
    (hready : c ∈ (w.position conn.loop_).todo →
      conn'.addedToLoop_ = true ∧ conn'.isReading = true)
    (hclosing : w.server = .alive → w.closing conn.loop_ = some c →
      conn'.state_ = conn.state_ ∧ conn'.history = conn.history) :
    (w.setConnection c conn').Base s where
  count := by
    rw [World.setConnection, List.length_set]
    exact h.count
  bounded := h.bounded
  named d connd hd := by
    by_cases hne : c = d
    · subst hne
      rw [getElem?_setConnection_self hc conn'] at hd
      obtain rfl := Option.some.inj hd
      rw [hname]
      exact h.named c conn hc
    · rw [getElem?_setConnection_ne hne] at hd
      exact h.named d connd hd
  entry name d hd := by
    rw [World.setConnection, List.length_set]
    exact h.entry name d hd
  owned l f hf := (h.owned l f hf).mono (loopOf_setConnection hc hloop)
  handling l := by
    refine (h.handling l).setConnection fun hmem => ?_
    obtain rfl := loop_of_isReady hc ((h.handling l).ready c hmem)
    rw [isReady, getElem?_setConnection_self hc conn']
    simp [hloop, hready hmem]
  closing l d hd := by
    obtain ⟨hl, halive⟩ := h.closing l d hd
    refine ⟨(loopOf_setConnection hc hloop d).trans hl, fun ha => ?_⟩
    obtain ⟨connd, k, hd', hstate, hhistory⟩ := halive ha
    by_cases hne : c = d
    · subst hne
      obtain rfl := Option.some.inj (hc.symm.trans hd')
      obtain rfl := Option.some.inj ((loopOf_eq hc).symm.trans hl)
      obtain ⟨hs, hh⟩ := hclosing ha hd
      exact ⟨conn', k, getElem?_setConnection_self hc conn', hs.trans hstate, hh.trans hhistory⟩
    · exact ⟨connd, k, (getElem?_setConnection_ne hne).trans hd', hstate, hhistory⟩
  dead := h.dead
  emptied := h.emptied
  dangling := h.dangling

end SetConnection

theorem position_setPosition (l : Nat) (p : Position) : (w.setPosition l p).position l = p := by
  show Function.update w.position l p l = p
  rw [Function.update_self]

theorem position_setPosition_ne {l m : Nat} {p : Position} (hne : m ≠ l) :
    (w.setPosition l p).position m = w.position m := by
  show Function.update w.position l p m = w.position m
  rw [Function.update_of_ne hne]

theorem closing_setClosing (l : Nat) (c : Option Nat) : (w.setClosing l c).closing l = c := by
  show Function.update w.closing l c l = c
  rw [Function.update_self]

theorem closing_setClosing_ne {l m : Nat} {c : Option Nat} (hne : m ≠ l) :
    (w.setClosing l c).closing m = w.closing m := by
  show Function.update w.closing l c m = w.closing m
  rw [Function.update_of_ne hne]

theorem Handling.setPosition {l m : Nat} {p : Position} (h : w.Handling m) (hne : m ≠ l) :
    (w.setPosition l p).Handling m := by
  have hp := position_setPosition_ne (w := w) (p := p) hne
  exact ⟨hp ▸ h.nodup, hp ▸ h.active, hp ▸ h.ready, hp ▸ h.current⟩

/-- Loop `l` goes on, and no functor is queued. -/
theorem Base.setPosition (h : w.Base s) {l : Nat} {p : Position}
    (hqueue : ∀ m, (w.setPosition l p).queue m ⊆ w.queue m)
    (hhandling : (w.setPosition l p).Handling l) : (w.setPosition l p).Base s where
  count := h.count
  bounded := h.bounded
  named := h.named
  entry := h.entry
  owned m f hf := (h.owned m f (hqueue m hf)).mono fun _ => rfl
  handling m := by
    by_cases hm : m = l
    · exact hm ▸ hhandling
    · exact (h.handling m).setPosition hm
  closing := h.closing
  dead ha c hc := h.dead ha c (hqueue 0 hc)
  emptied := h.emptied
  dangling := h.dangling

theorem Base.functors (h : w.Base s) {l : Nat} {f : Functor} {batch : List Functor}
    (hp : w.position l = .functors (f :: batch)) :
    (w.setPosition l (.functors batch)).Base s := by
  refine h.setPosition (fun m => ?_) (.of_todo_nil ?_)
  · rw [queue_functors hp m]
    exact List.subset_append_right _ _
  · rw [position_setPosition]
    rfl

theorem Base.queueInLoop (h : w.Base s) {l : Nat} {f : Functor} (howns : w.Owns l f)
    (hdead : w.server ≠ .alive → f.task ≠ none) : (w.queueInLoop l f).Base s where
  count := h.count
  bounded := h.bounded
  named := h.named
  entry := h.entry
  owned m f' hf' := by
    refine Owns.mono (w := w) (fun _ => rfl) ?_
    rw [queue_queueInLoop, List.mem_append] at hf'
    rcases hf' with hf' | hf'
    · exact h.owned m f' hf'
    · split at hf'
      next hm =>
        obtain rfl := List.mem_singleton.mp hf'
        exact hm ▸ howns
      next => exact absurd hf' List.not_mem_nil
  handling m := ⟨(h.handling m).nodup, (h.handling m).active, (h.handling m).ready,
    (h.handling m).current⟩
  closing := h.closing
  dead ha c hc := by
    rw [queue_queueInLoop, List.mem_append] at hc
    rcases hc with hc | hc
    · exact h.dead ha c hc
    · split at hc
      · obtain rfl := List.mem_singleton.mp hc
        exact hdead ha rfl
      · exact absurd hc List.not_mem_nil
  emptied := h.emptied
  dangling := h.dangling

theorem Base.setClosing (h : w.Base s) (l : Nat) {next : Option Nat}
    (hnext : ∀ c, next = some c → w.loopOf c = some l ∧ (w.server = .alive →
      ∃ conn k, w.connections[c]? = some conn ∧ conn.state_ = .kDisconnected ∧
        conn.history = opened l k)) :
    (w.setClosing l next).Base s where
  count := h.count
  bounded := h.bounded
  named := h.named
  entry := h.entry
  owned m f hf := (h.owned m f hf).mono fun _ => rfl
  handling m := ⟨(h.handling m).nodup, (h.handling m).active, (h.handling m).ready,
    (h.handling m).current⟩
  closing m d hd := by
    by_cases hm : m = l
    · subst hm
      rw [closing_setClosing] at hd
      exact hnext d hd
    · rw [closing_setClosing_ne hm] at hd
      exact h.closing m d hd
  dead := h.dead
  emptied := h.emptied
  dangling := h.dangling

theorem Base.setClosing_none (h : w.Base s) (l : Nat) : (w.setClosing l none).Base s :=
  h.setClosing l fun _ hc => absurd hc.symm (Option.some_ne_none _)

theorem Base.erase (h : w.Base s) (name : String) :
    Base s { w with connections_ := w.connections_.erase name } where
  count := h.count
  bounded := h.bounded
  named := h.named
  entry name' d hd := by
    dsimp only at hd
    by_cases hname : name' = name
    · rw [hname, AList.lookup_erase] at hd
      exact absurd hd.symm (Option.some_ne_none _)
    · rw [AList.lookup_erase_ne hname] at hd
      exact h.entry name' d hd
  owned m f hf := (h.owned m f hf).mono fun _ => rfl
  handling m := ⟨(h.handling m).nodup, (h.handling m).active, (h.handling m).ready,
    (h.handling m).current⟩
  closing := h.closing
  dead := h.dead
  emptied hd name' := by
    dsimp only
    by_cases hname : name' = name
    · rw [hname, AList.lookup_erase]
    · rw [AList.lookup_erase_ne hname]
      exact h.emptied hd name'
  dangling := h.dangling

end World

end Cnet.Net.Servers
