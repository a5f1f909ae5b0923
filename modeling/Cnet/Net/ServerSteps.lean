import Cnet.Net.ServerConnections

/-!
# The steps of the server

`InvBut c` is the invariant but for the stage of connection `c`. Each function is shown to
take it, with what it finds of `c`, to the invariant.
-/

namespace Cnet.Net.Servers

open Cnet.Support

namespace World

variable {s : Settings} {w w' : World} {c : Nat} {conn conn' : Connection}

/-- The invariant, but for the stage of the connection `c`. -/
structure InvBut (s : Settings) (c : Nat) (w : World) : Prop where
  base : w.Base s
  others : ∀ d conn, c ≠ d → w.connections[d]? = some conn → w.Life d conn

theorem Inv.but (h : w.Inv s) (c : Nat) : w.InvBut s c := ⟨h.base, fun d conn _ => h.life d conn⟩

namespace InvBut

theorem inv (h : w.InvBut s c) (hc : w.connections[c]? = some conn) (hlife : w.Life c conn) :
    w.Inv s where
  base := h.base
  life d connd hd := by
    by_cases hne : c = d
    · subst hne
      obtain rfl := Option.some.inj (hc.symm.trans hd)
      exact hlife
    · exact h.others d connd hne hd

/-- A step that leaves the other connections alone. -/
theorem frame (h : w.InvBut s c) (hbase : w'.Base s)
    (hothers : ∀ d, c ≠ d → Untouched d w w') : w'.InvBut s c where
  base := hbase
  others d connd hne hd := by
    have hu := hothers d hne
    rw [hu.connection] at hd
    exact (h.others d connd hne hd).frame hu

theorem setConnection (h : w.InvBut s c) (hc : w.connections[c]? = some conn)
    (hname : conn'.name_ = conn.name_) (hloop : conn'.loop_ = conn.loop_)
    (hready : c ∈ (w.position conn.loop_).todo →
      conn'.addedToLoop_ = true ∧ conn'.isReading = true)
    (hclosing : w.server = .alive → w.closing conn.loop_ = some c →
      conn'.state_ = conn.state_ ∧ conn'.history = conn.history) :
    (w.setConnection c conn').InvBut s c :=
  h.frame (h.base.setConnection hc hname hloop hready hclosing)
    fun _ hne => Untouched.setConnection hne conn'

theorem functors (h : w.InvBut s c) {l : Nat} {f : Functor} {batch : List Functor}
    (hp : w.position l = .functors (f :: batch)) (hf : f.connection = c) :
    (w.setPosition l (.functors batch)).InvBut s c :=
  h.frame (h.base.functors hp) fun _ hne => Untouched.functors hp (hf.symm ▸ hne)

theorem queueInLoop (h : w.InvBut s c) {l : Nat} {f : Functor} (howns : w.Owns l f)
    (hdead : w.server ≠ .alive → f.task ≠ none) (hf : f.connection = c) :
    (w.queueInLoop l f).InvBut s c :=
  h.frame (h.base.queueInLoop howns hdead) fun _ hne => Untouched.queueInLoop (hf.symm ▸ hne)

theorem erase (h : w.InvBut s c) {name : String} (hlookup : w.connections_.lookup name = some c) :
    InvBut s c { w with connections_ := w.connections_.erase name } :=
  h.frame (h.base.erase name) fun _ hne => Untouched.erase hlookup hne

end InvBut

namespace Holds

variable {reading added listed : Bool} {history : List Event} {tasks : List Functor}
  {removals : Nat}

theorem setConnection (h : w.Holds c conn reading added history listed tasks removals)
    (conn' : Connection) (hname : conn'.name_ = conn.name_) (hloop : conn'.loop_ = conn.loop_)
    {reading' added' : Bool} {history' : List Event} (hreading : conn'.isReading = reading')
    (hadded : conn'.addedToLoop_ = added') (hhistory : conn'.history = history') :
    (w.setConnection c conn').Holds c conn' reading' added' history' listed tasks removals where
  reading := hreading
  added := hadded
  history := hhistory
  listed := hname ▸ h.listed
  tasks := hloop ▸ h.tasks
  removals := h.removals

theorem queueTask (h : w.Holds c conn reading added history listed tasks removals) {f : Functor}
    (hf : f.task = some c) :
    (w.queueInLoop conn.loop_ f).Holds c conn reading added history listed (tasks ++ [f])
      removals where
  reading := h.reading
  added := h.added
  history := h.history
  listed := h.listed
  tasks := by rw [tasks_queueInLoop, if_pos ⟨rfl, hf⟩, h.tasks]
  removals := by
    have hremoval : f ≠ .removeConnectionInLoop c := by
      rintro rfl
      exact Option.some_ne_none c hf.symm
    rw [removals_queueInLoop, if_neg fun hr => hremoval hr.2, h.removals, Nat.add_zero]

theorem queueRemoval (h : w.Holds c conn reading added history listed tasks removals) :
    (w.queueInLoop 0 (.removeConnectionInLoop c)).Holds c conn reading added history listed tasks
      (removals + 1) where
  reading := h.reading
  added := h.added
  history := h.history
  listed := h.listed
  tasks := by
    rw [tasks_queueInLoop, if_neg fun hr => Option.some_ne_none c hr.2.symm, List.append_nil,
      h.tasks]
  removals := by rw [removals_queueInLoop, if_pos ⟨rfl, rfl⟩, h.removals]

/-- The next functor of the loop is the first of the connection's own. -/
theorem runTask (h : w.Holds c conn reading added history listed tasks removals) {f : Functor}
    {batch : List Functor} (hp : w.position conn.loop_ = .functors (f :: batch))
    (hf : f.task = some c) : ∃ rest, tasks = f :: rest ∧
      (w.setPosition conn.loop_ (.functors batch)).Holds c conn reading added history listed rest
        removals := by
  have htasks := h.tasks
  rw [tasks_functors hp, if_pos ⟨rfl, hf⟩] at htasks
  have hremoval : f ≠ .removeConnectionInLoop c := by
    rintro rfl
    exact Option.some_ne_none c hf.symm
  have hremovals := h.removals
  rw [removals_functors hp, if_neg fun hr => hremoval hr.2, Nat.zero_add] at hremovals
  exact ⟨_, htasks.symm, h.reading, h.added, h.history, h.listed, rfl, hremovals⟩

/-- No functor waits for it. -/
theorem no_task (h : w.Holds c conn reading added history listed [] removals) {f : Functor}
    {batch : List Functor} (hp : w.position conn.loop_ = .functors (f :: batch))
    (hf : f.task = some c) : False := by
  obtain ⟨rest, htasks, -⟩ := h.runTask hp hf
  exact List.cons_ne_nil _ _ htasks.symm

theorem runRemoval (h : w.Holds c conn reading added history listed tasks removals)
    {batch : List Functor} (hp : w.position 0 = .functors (.removeConnectionInLoop c :: batch)) :
    ∃ rest, removals = rest + 1 ∧
      (w.setPosition 0 (.functors batch)).Holds c conn reading added history listed tasks rest := by
  have hremovals := h.removals
  rw [removals_functors hp, if_pos ⟨rfl, rfl⟩, Nat.add_comm] at hremovals
  have htasks := h.tasks
  rw [tasks_functors hp, if_neg fun hr => Option.some_ne_none c hr.2.symm,
    List.nil_append] at htasks
  exact ⟨_, hremovals.symm, h.reading, h.added, h.history, h.listed, htasks, rfl⟩

theorem erase (h : w.Holds c conn reading added history listed tasks removals) :
    Holds { w with connections_ := w.connections_.erase conn.name_ } c conn reading added history
      false tasks removals where
  reading := h.reading
  added := h.added
  history := h.history
  listed := by
    rw [isListed]
    dsimp only
    rw [AList.lookup_erase]
    rfl
  tasks := h.tasks
  removals := h.removals

theorem setClosing (h : w.Holds c conn reading added history listed tasks removals) (l : Nat)
    (d : Option Nat) :
    (w.setClosing l d).Holds c conn reading added history listed tasks removals :=
  ⟨h.reading, h.added, h.history, h.listed, h.tasks, h.removals⟩

/-- A channel that is not watched has no event still to be handled. -/
theorem not_todo (hbase : w.Base s) (hc : w.connections[c]? = some conn)
    (h : w.Holds c conn false added history listed tasks removals) (l : Nat) :
    c ∉ (w.position l).todo := by
  intro hmem
  have hready := (hbase.handling l).ready c hmem
  rw [isReady, hc] at hready
  simp [h.reading] at hready

end Holds

theorem opened_ne_append {l l' k k' : Nat} {rest : List Event}
    (h : opened l k ++ .closeCallback :: rest = opened l' k') : False := by
  have hmem : Event.closeCallback ∈ opened l' k' := h ▸ by simp
  simp [opened, List.mem_replicate] at hmem

theorem opened_succ (l k : Nat) : opened l k ++ [.handleEvent l] = opened l (k + 1) := by
  rw [opened, opened, List.replicate_succ', List.cons_append]

/-- The connection after its `connectEstablished` in loop `l`. -/
def establishedConnection (l : Nat) (conn : Connection) : Connection :=
  { conn with
    state_ := .kConnected
    isReading := true
    addedToLoop_ := true
    history := conn.history ++ [.connectEstablished l] }

/-- `connectEstablished` of a connection that is still connecting. -/
theorem InvBut.connectEstablished (h : w.InvBut s c) (hc : w.connections[c]? = some conn)
    {swept : Bool} (hswept : swept = true → w.server ≠ .alive)
    (hstate : conn.state_ = .kConnecting)
    (hholds : w.Holds c conn false false [] (!swept) (destroying swept c) 0) :
    ∃ w', w.connectEstablished conn.loop_ c = some w' ∧ w'.Inv s := by
  have heq : w.connectEstablished conn.loop_ c =
      some (w.setConnection c (establishedConnection conn.loop_ conn)) := by
    rw [World.connectEstablished, hc]
    simp only [Option.bind_eq_bind, Option.bind_some, hstate, assert_pos]
    rfl
  refine ⟨_, heq, ?_⟩
  have hnotClosing : w.server = .alive → w.closing conn.loop_ ≠ some c := by
    intro ha hclosing
    obtain ⟨conn', k, hc', hstate', -⟩ := (h.base.closing _ _ hclosing).2 ha
    obtain rfl := Option.some.inj (hc.symm.trans hc')
    exact absurd (hstate.symm.trans hstate') (by decide)
  have hbut : (w.setConnection c (establishedConnection conn.loop_ conn)).InvBut s c :=
    h.setConnection hc rfl rfl (fun _ => ⟨rfl, rfl⟩) fun ha hcl => absurd hcl (hnotClosing ha)
  have hhistory : (establishedConnection conn.loop_ conn).history = opened conn.loop_ 0 := by
    rw [establishedConnection, hholds.history]
    rfl
  have hup := hholds.setConnection (establishedConnection conn.loop_ conn) rfl rfl rfl rfl
    hhistory
  exact hbut.inv (getElem?_setConnection_self hc _) (.up 0 swept hswept (.inl rfl) hup)

/-- A channel that may be removed has no event still to be handled. -/
theorem Handling.not_todo {l : Nat} (h : w.Handling l) (hremovable : w.removable l c = true) :
    c ∉ (w.position l).todo := by
  intro hmem
  have hactive := h.active c hmem
  have hcurrent := h.current
  rw [removable] at hremovable
  cases hp : w.position l with
  | polling => simp [hp, Position.todo] at hmem
  | functors batch => simp [hp, Position.todo] at hmem
  | handling activeChannels todo =>
    rw [hp] at hremovable hactive
    simp only [Bool.not_eq_true', List.contains_eq_mem, decide_eq_false_iff_not] at hremovable
    exact hremovable hactive
  | handler activeChannels current todo =>
    rw [hp] at hremovable hactive hcurrent hmem
    simp only [Bool.or_eq_true, decide_eq_true_eq, Bool.not_eq_true', List.contains_eq_mem,
      decide_eq_false_iff_not] at hremovable
    rcases hremovable with rfl | hnot
    · exact hcurrent _ rfl hmem
    · exact hnot hactive

/-- The connection after its `connectDestroyed` in loop `l`. -/
def destroyedConnection (l : Nat) (conn : Connection) : Connection :=
  { conn with
    state_ := if conn.state_ = .kConnected then .kDisconnected else conn.state_
    isReading := false
    addedToLoop_ := false
    history := conn.history ++ [.connectDestroyed l] }

theorem connectDestroyed_eq (hc : w.connections[c]? = some conn)
    (hreading : conn.state_ = .kConnected ∨ conn.isReading = false)
    (hremovable : w.removable conn.loop_ c = true) (hadded : conn.addedToLoop_ = true) :
    w.connectDestroyed conn.loop_ c =
      some (w.setConnection c (destroyedConnection conn.loop_ conn)) := by
  rw [World.connectDestroyed, hc, destroyedConnection]
  simp only [Option.bind_eq_bind, Option.bind_some, assert_pos, hremovable]
  by_cases hstate : conn.state_ = .kConnected
  · simp only [if_pos hstate, assert_pos, Option.bind_some, hadded]
  · have hreading := hreading.resolve_left hstate
    simp only [if_neg hstate, hreading, assert_pos, Option.bind_some, hadded]

/-- What `connectDestroyed` has found when it has a result. -/
theorem connectDestroyed_spec {l : Nat} (hs : w.connectDestroyed l c = some w') :
    ∃ conn, w.connections[c]? = some conn ∧ conn.loop_ = l ∧
      (conn.state_ = .kConnected ∨ conn.isReading = false) ∧ w.removable l c = true ∧
      conn.addedToLoop_ = true ∧ w' = w.setConnection c (destroyedConnection l conn) := by
  rw [World.connectDestroyed] at hs
  obtain ⟨conn, hc, hs⟩ := Option.bind_eq_some_iff.mp hs
  obtain ⟨hloop, hs⟩ := bind_assert.mp hs
  obtain ⟨hreading, hs⟩ := bind_assert.mp hs
  obtain ⟨hremovable, hs⟩ := bind_assert.mp hs
  obtain ⟨hadded, hs⟩ := bind_assert.mp hs
  obtain rfl := Option.some.inj hs
  by_cases hstate : conn.state_ = .kConnected
  · rw [if_pos hstate] at hadded ⊢
    refine ⟨conn, hc, hloop, .inl hstate, hremovable, hadded, ?_⟩
    rw [destroyedConnection, if_pos hstate]
  · rw [if_neg hstate] at hreading hadded ⊢
    refine ⟨conn, hc, hloop, .inr hreading, hremovable, hadded, ?_⟩
    rw [destroyedConnection, if_neg hstate, ← hreading]

theorem state_destroyedConnection {l : Nat} (hstate : conn.state_ ≠ .kConnecting)
    (hreading : conn.state_ = .kDisconnecting → conn.isReading = true)
    (h : conn.state_ = .kConnected ∨ conn.isReading = false) :
    (destroyedConnection l conn).state_ = .kDisconnected := by
  rw [destroyedConnection]
  dsimp only
  by_cases hconnected : conn.state_ = .kConnected
  · rw [if_pos hconnected]
  · rw [if_neg hconnected]
    have hnot : conn.state_ ≠ .kDisconnecting := by
      intro hd
      have hfalse := h.resolve_left hconnected
      exact Bool.false_ne_true (hfalse.symm.trans (hreading hd))
    cases hs : conn.state_ with
    | kDisconnected => rfl
    | kConnecting => exact absurd hs hstate
    | kConnected => exact absurd hs hconnected
    | kDisconnecting => exact absurd hs hnot

/-- A connection that may be destroyed: it has been removed from `connections_`, or the
destructor has taken it. -/
inductive Leaving (w : World) (c : Nat) (conn : Connection) : Prop
  | removed (k : Nat) (hstate : conn.state_ = .kDisconnected)
      (h : w.Holds c conn false true (opened conn.loop_ k ++ [.closeCallback, .erase 1]) false [] 0)
  | swept (k : Nat) (hdead : w.server ≠ .alive) (reading : Bool)
      (hstate : conn.state_ ≠ .kConnecting)
      (hreading : conn.state_ = .kDisconnecting → reading = true)
      (h : w.Holds c conn reading true (opened conn.loop_ k) false [] 0)

/-- `connectDestroyed` of such a connection, if its asserts hold. -/
theorem InvBut.connectDestroyed (h : w.InvBut s c) (hc : w.connections[c]? = some conn)
    (hleaving : w.Leaving c conn) {l : Nat} (hs : w.connectDestroyed l c = some w') :
    w'.Inv s := by
  obtain ⟨conn', hc', rfl, hreading, hremovable, -, rfl⟩ := connectDestroyed_spec hs
  obtain rfl := Option.some.inj (hc.symm.trans hc')
  have hnot : c ∉ (w.position conn.loop_).todo := (h.base.handling _).not_todo hremovable
  have hclosing : w.server = .alive → w.closing conn.loop_ ≠ some c := by
    intro ha hcl
    obtain ⟨conn', k', hc', -, hhistory⟩ := (h.base.closing _ _ hcl).2 ha
    obtain rfl := Option.some.inj (hc.symm.trans hc')
    cases hleaving with
    | removed k hstate hholds => exact opened_ne_append (hholds.history.symm.trans hhistory)
    | swept k hdead => exact hdead ha
  have hbut : (w.setConnection c (destroyedConnection conn.loop_ conn)).InvBut s c :=
    h.setConnection hc rfl rfl (fun hmem => absurd hmem hnot)
      fun ha hcl => absurd hcl (hclosing ha)
  refine hbut.inv (getElem?_setConnection_self hc _) ?_
  cases hleaving with
  | removed k hstate hholds =>
    have hhistory : (destroyedConnection conn.loop_ conn).history =
        opened conn.loop_ k ++ [.closeCallback, .erase 1, .connectDestroyed conn.loop_] := by
      rw [destroyedConnection, hholds.history, List.append_assoc]
      rfl
    have hstate' := state_destroyedConnection (l := conn.loop_) (by rw [hstate]; decide)
      (fun hd => absurd (hstate.symm.trans hd) (by decide)) hreading
    have hgone := hholds.setConnection (destroyedConnection conn.loop_ conn) rfl rfl rfl rfl
      hhistory
    exact .gone k hstate' hgone
  | swept k hdead reading hstate hreading' hholds =>
    have hhistory : (destroyedConnection conn.loop_ conn).history =
        opened conn.loop_ k ++ [.connectDestroyed conn.loop_] := by
      rw [destroyedConnection, hholds.history]
    have hstate' := state_destroyedConnection (l := conn.loop_) hstate
      (fun hd => hholds.reading.trans (hreading' hd)) hreading
    have hswept := hholds.setConnection (destroyedConnection conn.loop_ conn) rfl rfl rfl rfl
      hhistory
    exact .swept k hstate' hdead hswept

theorem lookup_of_listed {name : String} (h : w.isListed name c = true) :
    w.connections_.lookup name = some c := of_decide_eq_true h

/-- `removeConnectionInLoop` finds the entry of a closed connection. -/
theorem InvBut.removeConnectionInLoop (h : w.InvBut s c) (halive : w.server = .alive)
    (hc : w.connections[c]? = some conn) {k : Nat} (hstate : conn.state_ = .kDisconnected)
    (hholds : w.Holds c conn false true (opened conn.loop_ k ++ [.closeCallback]) true [] 0) :
    ∃ w', w.removeConnectionInLoop c = some w' ∧ w'.Inv s := by
  have hlookup := lookup_of_listed hholds.listed
  have halive' : w.server ≠ .destroyed := by
    rw [halive]
    decide
  rw [World.removeConnectionInLoop, if_neg halive', hc]
  simp only [Option.bind_eq_bind, Option.bind_some, hlookup, Option.isSome_some, if_true,
    assert_pos]
  refine ⟨_, rfl, ?_⟩
  set erased : Connection := { conn with history := conn.history ++ [.erase 1] } with herased
  have hclosing : w.closing conn.loop_ ≠ some c := by
    intro hcl
    obtain ⟨conn', k', hc', -, hhistory⟩ := (h.base.closing _ _ hcl).2 halive
    obtain rfl := Option.some.inj (hc.symm.trans hc')
    exact opened_ne_append (hholds.history.symm.trans hhistory)
  have hnot : c ∉ (w.position conn.loop_).todo := hholds.not_todo h.base hc _
  have hbut : InvBut s c (World.setConnection c erased { w with
      connections_ := w.connections_.erase conn.name_ }) :=
    (h.erase hlookup).setConnection hc rfl rfl (fun hmem => absurd hmem hnot)
      fun _ hcl => absurd hcl hclosing
  have hhistory : erased.history = opened conn.loop_ k ++ [.closeCallback, .erase 1] := by
    rw [herased, hholds.history, List.append_assoc]
    rfl
  have hc' := getElem?_setConnection_self (w := { w with
    connections_ := w.connections_.erase conn.name_ }) hc erased
  have hholds' := hholds.erase.setConnection erased rfl rfl hholds.reading hholds.added
    hhistory
  have hqueued := hbut.queueInLoop (f := .connectDestroyed c) (loopOf_eq hc')
    (fun _ => Option.some_ne_none c) rfl
  exact hqueued.inv hc' (.removed k hstate (hholds'.queueTask rfl))

/-- Between the two halves of `handleClose`, and with the server alive, nothing waits for the
connection. -/
theorem Life.of_closing (h : w.Life c conn) (halive : w.server = .alive) {l k : Nat}
    (hstate : conn.state_ = .kDisconnected) (hhistory : conn.history = opened l k) :
    ∃ k', w.Holds c conn false true (opened conn.loop_ k') true [] 0 := by
  cases h with
  | connecting swept hswept hstate' => exact absurd (hstate'.symm.trans hstate) (by decide)
  | up k' swept hswept hstate' =>
    rcases hstate' with hstate' | hstate' <;> exact absurd (hstate'.symm.trans hstate) (by decide)
  | closing k' swept hswept hstate' hholds =>
    cases swept with
    | true => exact absurd halive (hswept rfl)
    | false => exact ⟨k', hholds⟩
  | closed k' hstate' hholds =>
    exact (opened_ne_append (hholds.history.symm.trans hhistory)).elim
  | removed k' hstate' hholds =>
    exact (opened_ne_append (hholds.history.symm.trans hhistory)).elim
  | gone k' hstate' hholds => exact (opened_ne_append (hholds.history.symm.trans hhistory)).elim
  | swept k' hstate' hdead => exact absurd halive hdead

/-- `closeCallback_` of a server that is alive. -/
theorem Inv.closeCallback (h : w.Inv s) (halive : w.server = .alive) {l : Nat}
    (hclosing : w.closing l = some c) : ∃ w', w.closeCallback l c = some w' ∧ w'.Inv s := by
  obtain ⟨hloop, hrest⟩ := h.base.closing l c hclosing
  obtain ⟨conn, k, hc, hstate, hhistory⟩ := hrest halive
  obtain rfl := Option.some.inj ((loopOf_eq hc).symm.trans hloop)
  obtain ⟨k', hholds⟩ := (h.life c conn hc).of_closing halive hstate hhistory
  set closed : Connection := { conn with history := conn.history ++ [.closeCallback] } with hclosed
  have heq : w.closeCallback conn.loop_ c =
      ((w.setClosing conn.loop_ none).setConnection c closed).removeConnection conn.loop_ c := by
    rw [World.closeCallback, hc]
    rfl
  have hfree : (w.setClosing conn.loop_ none).InvBut s c :=
    (h.but c).frame (h.base.setClosing_none _)
      fun _ _ => Untouched.of_queue_eq rfl rfl (fun _ => rfl) rfl
  have hbut : ((w.setClosing conn.loop_ none).setConnection c closed).InvBut s c := by
    refine hfree.setConnection hc rfl rfl (fun hmem => ?_) fun _ hcl => ?_
    · exact absurd hmem (hholds.not_todo h.base hc _)
    · rw [closing_setClosing] at hcl
      exact absurd hcl.symm (Option.some_ne_none c)
  have hhistory' : closed.history = opened conn.loop_ k' ++ [.closeCallback] := by
    rw [hclosed, hholds.history]
  have hc' := getElem?_setConnection_self (w := w.setClosing conn.loop_ none) hc closed
  have hholds' := (hholds.setClosing conn.loop_ none).setConnection closed rfl rfl
    hholds.reading hholds.added hhistory'
  have hnot : ((w.setClosing conn.loop_ none).setConnection c closed).server ≠ .destroyed := by
    show w.server ≠ .destroyed
    rw [halive]
    decide
  rw [heq, removeConnection, if_neg hnot]
  by_cases hbase : conn.loop_ = 0
  · rw [if_pos hbase]
    exact hbut.removeConnectionInLoop halive hc' hstate hholds'
  · rw [if_neg hbase]
    have howns : Owns 0 ((w.setClosing conn.loop_ none).setConnection c closed)
        (.removeConnectionInLoop c) := ⟨rfl, by rw [loopOf_eq hc']; rfl⟩
    have hqueued := hbut.queueInLoop howns (fun hdead => absurd halive hdead) rfl
    exact ⟨_, rfl, hqueued.inv hc' (.closed k' hstate hholds'.queueRemoval)⟩

/-- Nothing waits for a connection that has not been made. -/
theorem Base.no_functor (h : w.Base s) {l : Nat} {f : Functor} (hf : f ∈ w.queue l) :
    f.connection < w.connections.length := by
  have howns := h.owned l f hf
  have hsome : (w.loopOf f.connection).isSome = true := by
    cases f with
    | connectEstablished c => exact Option.isSome_iff_exists.mpr ⟨l, howns⟩
    | connectDestroyed c => exact Option.isSome_iff_exists.mpr ⟨l, howns⟩
    | removeConnectionInLoop c => exact howns.2
  rw [loopOf, Option.isSome_map, Option.isSome_iff_exists] at hsome
  obtain ⟨conn, hconn⟩ := hsome
  exact (List.getElem?_eq_some_iff.mp hconn).1

/-- The world with a new connection, before its `connectEstablished`. -/
def accepted (s : Settings) (w : World) : World :=
  { w with
    next_ := (w.getNextLoop s).2
    nextConnId_ := w.nextConnId_ + 1
    connections := w.connections ++ [(⟨connName s w.nextConnId_, (w.getNextLoop s).1, .kConnecting,
      false, false, []⟩ : Connection)]
    connections_ := w.connections_.insert (connName s w.nextConnId_) w.connections.length }

theorem getElem?_accepted_of_lt (hc : c < w.connections.length) :
    (w.accepted s).connections[c]? = w.connections[c]? := List.getElem?_append_left hc

theorem lt_of_getElem? (hc : w.connections[c]? = some conn) : c < w.connections.length :=
  (List.getElem?_eq_some_iff.mp hc).1

theorem getElem?_accepted_self : (w.accepted s).connections[w.connections.length]? =
    some ⟨connName s w.nextConnId_, (w.getNextLoop s).1, .kConnecting, false, false, []⟩ :=
  List.getElem?_concat_length

theorem accepted_cases {d : Nat} {connd : Connection}
    (hd : (w.accepted s).connections[d]? = some connd) :
    d < w.connections.length ∧ w.connections[d]? = some connd ∨
      d = w.connections.length ∧ connd =
        ⟨connName s w.nextConnId_, (w.getNextLoop s).1, .kConnecting, false, false, []⟩ := by
  have hlt := lt_of_getElem? hd
  rw [accepted, List.length_append, List.length_singleton] at hlt
  rcases Nat.lt_succ_iff_lt_or_eq.mp hlt with hlt | rfl
  · exact .inl ⟨hlt, (getElem?_accepted_of_lt hlt).symm.trans hd⟩
  · rw [getElem?_accepted_self] at hd
    exact .inr ⟨rfl, (Option.some.inj hd).symm⟩

/-- The name is new. -/
theorem Base.lookup_new (h : w.Base s) :
    w.connections_.lookup (connName s w.nextConnId_) = none := by
  cases hlookup : w.connections_.lookup (connName s w.nextConnId_) with
  | none => rfl
  | some c =>
    obtain ⟨hlt, hname⟩ := h.entry _ c hlookup
    have hcount := h.count
    have hbounded := h.bounded
    have := connName_injective hbounded (by omega) hname
    omega

theorem Owns.of_loopOf {l : Nat} (hloop : ∀ d, d < w.connections.length → w'.loopOf d = w.loopOf d)
    {f : Functor} (hf : f.connection < w.connections.length) (h : w.Owns l f) : w'.Owns l f := by
  have hc := hloop _ hf
  cases f with
  | connectEstablished c => exact hc.trans h
  | connectDestroyed c => exact hc.trans h
  | removeConnectionInLoop c => exact ⟨h.1, hc.symm ▸ h.2⟩

theorem Base.accepted (h : w.Base s) (halive : w.server = .alive)
    (hbound : w.nextConnId_ < intMax) : (w.accepted s).Base s where
  count := by
    rw [World.accepted, List.length_append, List.length_singleton, h.count]
  bounded := hbound
  named d connd hd := by
    rcases accepted_cases hd with ⟨-, hd⟩ | ⟨rfl, rfl⟩
    · exact h.named d connd hd
    · rw [h.count]
  entry name d hd := by
    rw [World.accepted, List.length_append, List.length_singleton]
    by_cases hname : name = connName s w.nextConnId_
    · subst hname
      rw [World.accepted, AList.lookup_insert] at hd
      obtain rfl := Option.some.inj hd
      exact ⟨Nat.lt_succ_self _, by rw [h.count]⟩
    · rw [World.accepted, AList.lookup_insert_ne hname] at hd
      obtain ⟨hlt, hname⟩ := h.entry name d hd
      exact ⟨Nat.lt_succ_of_lt hlt, hname⟩
  owned l f hf := by
    refine (h.owned l f hf).of_loopOf (fun d hd => ?_) (h.no_functor hf)
    rw [loopOf, loopOf, getElem?_accepted_of_lt hd]
  handling l := by
    refine ⟨(h.handling l).nodup, (h.handling l).active, fun d hd => ?_, (h.handling l).current⟩
    have hready := (h.handling l).ready d hd
    rw [isReady] at hready ⊢
    cases hconn : w.connections[d]? with
    | none => simp [hconn] at hready
    | some connd =>
      rw [getElem?_accepted_of_lt (lt_of_getElem? hconn)]
      exact hready
  closing l d hd := by
    obtain ⟨hloop, hrest⟩ := h.closing l d hd
    obtain ⟨conn, k, hc, hstate⟩ := hrest halive
    have hc' := (getElem?_accepted_of_lt (s := s) (lt_of_getElem? hc)).trans hc
    refine ⟨?_, fun _ => ⟨conn, k, hc', hstate⟩⟩
    rw [loopOf, hc', ← hloop, loopOf, hc]
  dead hdead := absurd halive hdead
  emptied hd := absurd (halive.symm.trans hd) (by decide)
  dangling := h.dangling

theorem InvBut.accepted (h : w.Inv s) (halive : w.server = .alive)
    (hbound : w.nextConnId_ < intMax) : (w.accepted s).InvBut s w.connections.length where
  base := h.base.accepted halive hbound
  others d connd hne hd := by
    rcases accepted_cases hd with ⟨hlt, hd⟩ | ⟨rfl, -⟩
    · refine (h.life d connd hd).frame ⟨getElem?_accepted_of_lt hlt, fun name => ?_, fun _ => rfl,
        rfl, fun ha => ha⟩
      rw [isListed, isListed]
      by_cases hname : name = connName s w.nextConnId_
      · subst hname
        rw [World.accepted, AList.lookup_insert, h.base.lookup_new]
        simp [hne]
      · rw [World.accepted, AList.lookup_insert_ne hname]
    · exact absurd rfl hne

/-- What is held of the new connection. -/
theorem holds_accepted (h : w.Base s) : (w.accepted s).Holds w.connections.length
    ⟨connName s w.nextConnId_, (w.getNextLoop s).1, .kConnecting, false, false, []⟩ false false []
    true [] 0 where
  reading := rfl
  added := rfl
  history := rfl
  listed := by
    rw [isListed, World.accepted, AList.lookup_insert]
    exact decide_eq_true rfl
  tasks := by
    refine List.filter_eq_nil_iff.mpr fun f hf htask => ?_
    have hlt := h.no_functor hf
    rw [Functor.connection_of_task (of_decide_eq_true htask)] at hlt
    exact Nat.lt_irrefl _ hlt
  removals := by
    refine List.count_eq_zero.mpr fun hmem => ?_
    exact Nat.lt_irrefl _ (h.no_functor hmem)

theorem newConnection_eq : w.newConnection s =
    (assert (w.nextConnId_ < intMax)).bind fun _ =>
      if (w.getNextLoop s).1 = 0 then (w.accepted s).connectEstablished 0 w.connections.length
      else some ((w.accepted s).queueInLoop (w.getNextLoop s).1
        (.connectEstablished w.connections.length)) := rfl

theorem Inv.newConnection (h : w.Inv s) (halive : w.server = .alive)
    (hs : w.newConnection s = some w') : w'.Inv s := by
  rw [newConnection_eq] at hs
  obtain ⟨hbound, hs⟩ := bind_assert.mp hs
  have hbut := InvBut.accepted h halive hbound
  have hholds := holds_accepted h.base
  have hnot : false = true → (w.accepted s).server ≠ .alive := fun h => absurd h Bool.false_ne_true
  by_cases hbase : (w.getNextLoop s).1 = 0
  · rw [if_pos hbase] at hs
    obtain ⟨v, hv, hinv⟩ := hbut.connectEstablished getElem?_accepted_self hnot rfl hholds
    dsimp only at hv
    rw [hbase] at hv
    obtain rfl := Option.some.inj (hs.symm.trans hv)
    exact hinv
  · rw [if_neg hbase] at hs
    obtain rfl := Option.some.inj hs
    have hqueued := hbut.queueInLoop (f := .connectEstablished w.connections.length)
      (loopOf_eq getElem?_accepted_self) (fun _ => Option.some_ne_none _) rfl
    exact hqueued.inv getElem?_accepted_self (.connecting false hnot rfl (hholds.queueTask rfl))

/-- An entry of `connections_` whose removal does not wait is of a connection that has not
been closed. -/
theorem Life.of_listed (h : w.Life c conn) (hlisted : w.isListed conn.name_ c = true)
    (hnone : w.removals c = 0) :
    conn.state_ = .kConnecting ∧ w.Holds c conn false false [] true [.connectEstablished c] 0 ∨
      (conn.state_ = .kConnected ∨ conn.state_ = .kDisconnecting) ∧
        (∃ k, w.Holds c conn true true (opened conn.loop_ k) true [] 0) ∨
      conn.state_ = .kDisconnected ∧
        ∃ k, w.Holds c conn false true (opened conn.loop_ k) true [] 0 := by
  have hunswept : ∀ swept : Bool, w.isListed conn.name_ c = !swept → swept = false := by
    intro swept hl
    exact Bool.not_eq_true' swept ▸ (hl.symm.trans hlisted)
  cases h with
  | connecting swept hswept hstate hholds =>
    obtain rfl := hunswept swept hholds.listed
    exact .inl ⟨hstate, hholds⟩
  | up k swept hswept hstate hholds =>
    obtain rfl := hunswept swept hholds.listed
    exact .inr (.inl ⟨hstate, k, hholds⟩)
  | closing k swept hswept hstate hholds =>
    obtain rfl := hunswept swept hholds.listed
    exact .inr (.inr ⟨hstate, k, hholds⟩)
  | closed k hstate hholds => exact absurd (hholds.removals.symm.trans hnone) (by decide)
  | removed k hstate hholds => exact absurd (hlisted.symm.trans hholds.listed) (by decide)
  | gone k hstate hholds => exact absurd (hlisted.symm.trans hholds.listed) (by decide)
  | swept k hstate hdead hholds => exact absurd (hlisted.symm.trans hholds.listed) (by decide)

/-- The destructor takes an entry of `connections_`. -/
theorem Inv.sweep (h : w.Inv s) (hdead : w.server ≠ .alive) {name : String}
    (hs : w.sweep name = some w') : w'.Inv s := by
  obtain ⟨c, hlookup, hs⟩ := Option.bind_eq_some_iff.mp hs
  obtain ⟨conn, hc, hs⟩ := Option.bind_eq_some_iff.mp hs
  have hname : name = conn.name_ := by
    rw [(h.base.entry name c hlookup).2, h.base.named c conn hc]
  subst hname
  have hbut := (h.but c).erase hlookup
  have hnone := List.count_eq_zero.mpr (h.base.dead hdead c)
  have hstage := (h.life c conn hc).of_listed (decide_eq_true hlookup) hnone
  by_cases hbase : conn.loop_ = 0
  · rw [if_pos hbase] at hs
    rcases hstage with ⟨-, hholds⟩ | ⟨hstate, k, hholds⟩ | ⟨hstate, k, hholds⟩
    · obtain ⟨conn', hc', -, -, -, hadded, -⟩ := connectDestroyed_spec hs
      obtain rfl := Option.some.inj (hc.symm.trans hc')
      exact absurd (hholds.added.symm.trans hadded) Bool.false_ne_true
    · refine hbut.connectDestroyed hc
        (.swept k hdead true (fun hn => ?_) (fun _ => rfl) hholds.erase) hs
      rcases hstate with hstate | hstate <;> exact absurd (hstate.symm.trans hn) (by decide)
    · refine hbut.connectDestroyed hc
        (.swept k hdead false (fun hn => ?_) (fun hn => ?_) hholds.erase) hs
      · exact absurd (hstate.symm.trans hn) (by decide)
      · exact absurd (hstate.symm.trans hn) (by decide)
  · rw [if_neg hbase] at hs
    obtain rfl := Option.some.inj hs
    have hqueued := hbut.queueInLoop (f := .connectDestroyed c) (l := conn.loop_) (loopOf_eq hc)
      (fun _ => Option.some_ne_none _) rfl
    refine hqueued.inv hc ?_
    rcases hstage with ⟨hstate, hholds⟩ | ⟨hstate, k, hholds⟩ | ⟨hstate, k, hholds⟩
    · exact .connecting true (fun _ => hdead) hstate (hholds.erase.queueTask rfl)
    · exact .up k true (fun _ => hdead) hstate (hholds.erase.queueTask rfl)
    · exact .closing k true (fun _ => hdead) hstate (hholds.erase.queueTask rfl)

end World

end Cnet.Net.Servers
