import Cnet.Examples.Memcached.Session
import Cnet.Examples.Memcached.StoreRefinement

/-!
# Turns of a session

A session is between two requests, or receives the value of an item, or drops bytes. What a
turn does with a request depends on the request and the end of its line alone; a value is
received, or dropped, in any number of pieces.
-/

namespace Cnet.Examples.Memcached.Session

open Cnet.Support Cnet.Base
open Cnet.Net (Bytes)
open Item (UpdatePolicy)

/-! ## What counts of a request -/

theorem read_congr {beg beg' : List Token} (h : beg.map Token.view = beg'.map Token.view) :
    read beg = none ∧ read beg' = none ∨
      ∃ x r r', read beg = some (x, r) ∧ read beg' = some (x, r') ∧
        r.map Token.view = r'.map Token.view := by
  cases beg with
  | nil =>
    obtain rfl := List.map_eq_nil_iff.mp h.symm
    exact .inl ⟨rfl, rfl⟩
  | cons tok beg =>
    obtain ⟨tok', beg', rfl, htok, hrest⟩ := List.map_eq_cons_iff.mp h.symm
    obtain ⟨-, hnumber⟩ := Prod.mk.inj htok
    rw [read_cons, read_cons, hnumber]
    cases tok.number with
    | none => exact .inl ⟨rfl, rfl⟩
    | some x => exact .inr ⟨x, beg, beg', rfl, rfl, hrest.symm⟩

theorem readFields_congr {beg beg' : List Token} (h : beg.map Token.view = beg'.map Token.view)
    (policy : UpdatePolicy) : readFields policy beg = readFields policy beg' := by
  rw [readFields, readFields]
  rcases read_congr h with ⟨h₁, h₁'⟩ | ⟨flags, r₁, r₁', h₁, h₁', hr₁⟩
  · rw [h₁, h₁']
  rw [h₁, h₁']
  simp only [Option.bind_eq_bind, Option.bind_some]
  rcases read_congr hr₁ with ⟨h₂, h₂'⟩ | ⟨exptime, r₂, r₂', h₂, h₂', hr₂⟩
  · rw [h₂, h₂']
  rw [h₂, h₂']
  simp only [Option.bind_some]
  rcases read_congr hr₂ with ⟨h₃, h₃'⟩ | ⟨bytes, r₃, r₃', h₃, h₃', hr₃⟩
  · rw [h₃, h₃']
  rw [h₃, h₃']
  simp only [Option.bind_some]
  rcases read_congr hr₃ with ⟨h₄, h₄'⟩ | ⟨cas, r₄, r₄', h₄, h₄', -⟩
  · rw [h₄, h₄']
  · rw [h₄, h₄', Option.map_some, Option.map_some]

theorem texts_of_views {beg beg' : List Token} (h : beg.map Token.view = beg'.map Token.view) :
    beg.map Token.text = beg'.map Token.text := by
  have htexts := congrArg (List.map Prod.fst) h
  rwa [List.map_map, List.map_map] at htexts

section

variable (hash : Bytes → Nat) (startTime : Int)

theorem getItems_congr {beg beg' : List Token} (h : beg.map Token.text = beg'.map Token.text)
    (cas : Bool) (s : Session) : getItems hash cas beg s = getItems hash cas beg' s := by
  induction beg generalizing beg' s with
  | nil =>
    obtain rfl := List.map_eq_nil_iff.mp h.symm
    rfl
  | cons tok beg ih =>
    obtain ⟨tok', beg', rfl, htok, hrest⟩ := List.map_eq_cons_iff.mp h.symm
    rw [getItems, getItems]
    simp only [htok, ih hrest.symm]

/-- Of the tokens only the words and their numbers count. -/
theorem dispatch_congr {beg beg' : List Token} (h : beg.map Token.view = beg'.map Token.view)
    (command : Bytes) (s : Session) :
    dispatch hash startTime command beg s = dispatch hash startTime command beg' s := by
  have hupdate (s : Session) : s.doUpdate hash startTime beg = s.doUpdate hash startTime beg' := by
    cases beg with
    | nil =>
      obtain rfl := List.map_eq_nil_iff.mp h.symm
      rfl
    | cons tok beg =>
      obtain ⟨tok', beg', rfl, htok, hrest⟩ := List.map_eq_cons_iff.mp h.symm
      have htext : tok'.text = tok.text := congrArg Prod.fst htok
      rw [doUpdate, doUpdate]
      simp only [readFields_congr hrest.symm, htext]
  have hget (s : Session) : s.doGet hash beg = s.doGet hash beg' := by
    rw [doGet, doGet, getItems_congr hash (texts_of_views h)]
  have hdelete (s : Session) : s.doDelete hash beg = s.doDelete hash beg' := by
    cases beg with
    | nil =>
      obtain rfl := List.map_eq_nil_iff.mp h.symm
      rfl
    | cons tok beg =>
      obtain ⟨tok', beg', rfl, htok, hrest⟩ := List.map_eq_cons_iff.mp h.symm
      have htext : tok'.text = tok.text := congrArg Prod.fst htok
      have hhead : beg.head?.map Token.text = beg'.head?.map Token.text := by
        rw [← List.head?_map, ← List.head?_map, texts_of_views hrest]
      have hnil : beg = [] ↔ beg' = [] := by
        rw [← List.map_eq_nil_iff (f := Token.view), ← hrest, List.map_eq_nil_iff]
      rw [doDelete, doDelete]
      simp only [hhead, htext, ne_eq, hnil]
  rw [dispatch, dispatch]
  simp only [hupdate, hget, hdelete]

theorem runCommand_congr {beg beg' : List Token} (h : beg.map Token.view = beg'.map Token.view)
    (s : Session) : s.runCommand hash startTime beg = s.runCommand hash startTime beg' := by
  cases beg with
  | nil =>
    obtain rfl := List.map_eq_nil_iff.mp h.symm
    rfl
  | cons tok beg =>
    obtain ⟨tok', beg', rfl, htok, hrest⟩ := List.map_eq_cons_iff.mp h.symm
    have htext : tok'.text = tok.text := congrArg Prod.fst htok
    rw [runCommand, runCommand, htext]
    exact dispatch_congr hash startTime hrest.symm tok.text s

/-- What follows the words of a request in the buffer. -/
def beyondWords (request beyond : Bytes) : Bytes :=
  if (stripNoreply request).isSome then noreplySuffix ++ beyond else beyond

/-- The request without `noreply` at its end. -/
def body (request : Bytes) : Bytes := (stripNoreply request).getD request

/-- A request is processed alike, whatever is in the buffer behind the end of its line. -/
theorem processRequest_append (request : Bytes) {beyond : Bytes} (h : Stops beyond)
    (more : Bytes) (s : Session) : s.processRequest hash startTime request (beyond ++ more) =
      s.processRequest hash startTime request beyond := by
  rw [processRequest, processRequest]
  cases stripNoreply request with
  | none => simp only [runCommand_congr hash startTime (tokens_append request h more)]
  | some request' =>
    have hviews := tokens_append request' (h.append_left noreplySuffix) more
    rw [List.append_assoc] at hviews
    simp only [runCommand_congr hash startTime hviews]

/-! ## Lookups -/

theorem needle_eq {key : Bytes} (h : key.length ≤ kLongestKeySize) :
    ∃ item, needle key = some item ∧ item.key = key := by
  have hmax : intMax = 2147483647 := rfl
  have hsize : kLongestKeySize = 250 := rfl
  obtain ⟨item, hitem, hreceives⟩ := Item.makeItem_receives
    (List.replicate kLongestKeySize 120) 0 0 0 (Nat.le_refl 2)
    (by rw [List.length_replicate]; omega)
  have hlen := hreceives.valuelen_eq
  have hneedle : needle key = item.resetKey key := by
    rw [needle, show ((2 : Int)) = ((2 : Nat) : Int) from rfl, hitem]
    rfl
  rw [hneedle, Item.resetKey, dif_pos ⟨by omega, by omega⟩]
  obtain ⟨item', hitem', hdata, hkeylen, -⟩ := Item.append_eq
    { item with
      keylen_ := key.length
      data_ := []
      fits := by omega
      received_le := Nat.zero_le _ } (Nat.le_add_right key.length _)
  refine ⟨item', hitem', ?_⟩
  rw [Item.key, hdata, hkeylen, List.nil_append, List.take_length]

/-- What `get` or `gets` finds of the keys. -/
def found (cas : Bool) (m : Contents) (keys : List Bytes) : Bytes :=
  keys.flatMap fun key => (m.entry key).elim [] fun e =>
    Item.valueText key e.1 (if cas then some (UInt64.ofNat e.2) else none)

/-- The key is not too long to be looked up. -/
def short (key : Bytes) : Bool := key.length ≤ kLongestKeySize

variable {hash : Bytes → Nat} {startTime : Int} {s : Session} {m : Contents}

open MemcacheServer (Refines)

/-- The keys are looked up as far as they are short. -/
theorem getItems_eq (h : Refines hash s.owner_ m) (cas : Bool) (beg : List Token) :
    s.getItems hash cas beg =
      let keys := beg.map Token.text
      let s' := { s with outputBuf_ := s.outputBuf_ ++ found cas m (keys.takeWhile short) }
      some (keys.all short, if keys.all short then s' else s'.reply badFormat) := by
  induction beg generalizing s with
  | nil =>
    simp only [getItems, found, List.map_nil, List.takeWhile_nil, List.flatMap_nil,
      List.append_nil, List.all_nil, if_pos]
  | cons tok beg ih =>
    rw [getItems]
    by_cases hshort : tok.text.length ≤ kLongestKeySize
    · obtain ⟨item, hitem, hkey⟩ := needle_eq hshort
      have hcons : short tok.text = true := decide_eq_true hshort
      have hfind : Option.Rel (HoldsEntry tok.text)
        (s.owner_.getItem hash tok.text) (m.entry tok.text) := h.find tok.text
      simp only [hshort, if_true, hitem, hkey, Option.bind_eq_bind, Option.bind_some, List.map_cons,
        List.takeWhile_cons, hcons, List.all_cons, Bool.true_and, found, List.flatMap_cons]
      generalize s.owner_.getItem hash tok.text = item at hfind ⊢
      generalize m.entry tok.text = entry at hfind ⊢
      cases hfind with
      | none => exact ih h
      | @some item e hold =>
        have htext := Item.Holds.output (v := e.1) hold cas
        simp only [htext, Option.bind_some]
        refine (ih (s := { s with outputBuf_ := s.outputBuf_ ++ _ }) h).trans ?_
        simp only [Option.elim_some, List.append_assoc]
        rfl
    · have hcons : short tok.text = false := decide_eq_false hshort
      simp only [hshort, if_false, List.map_cons, List.takeWhile_cons, hcons, List.all_cons,
        Bool.false_and, Bool.false_eq_true, found, List.flatMap_nil, List.append_nil]

/-! ## What the commands do -/

theorem reply_eq (msg : Bytes) (s : Session) :
    s.reply msg = { s with conn_ := if s.noreply_ then s.conn_ else s.conn_.send msg } := by
  rw [reply]
  split <;> rfl

@[simp]
theorem reply_owner (msg : Bytes) (s : Session) : (s.reply msg).owner_ = s.owner_ := by
  rw [reply_eq]

@[simp]
theorem reply_state (msg : Bytes) (s : Session) : (s.reply msg).state_ = s.state_ := by
  rw [reply_eq]

/-- A size that as an `int` is negative, and as a `size_t` again larger than it was. -/
def Overruns (n : Nat) : Prop := n < castSize (castInt n)

/-- The buffer is sent as a whole while the connection is up, and where an `int` can be passed
for its size. -/
theorem sendBuffer_whole {c : Connection} {buf : Bytes}
    (h : c.connected = true ∨ PassesInt buf.length) :
    c.sendBuffer buf = some { c with sent := c.sent ++ buf } := by
  rw [Connection.sendBuffer]
  by_cases hconnected : c.connected = true
  · exact if_pos hconnected
  · rw [if_neg hconnected, StringPiece.bytes_ofString (h.resolve_left hconnected), Option.map_some]

theorem sendOutput_whole (h : s.conn_.connected = true ∨ PassesInt s.outputBuf_.length) :
    s.sendOutput = some { s with conn_ := { s.conn_ with sent := s.conn_.sent ++ s.outputBuf_ },
                                 outputBuf_ := [] } := by
  rw [sendOutput, sendBuffer_whole h, Option.map_some]

theorem sendOutput_cases (s : Session) :
    s.sendOutput = none ∧ s.conn_.connected = false ∧ Overruns s.outputBuf_.length ∨
    ¬ (s.conn_.connected = false ∧ Overruns s.outputBuf_.length) ∧
      ∃ conn, s.sendOutput = some { s with conn_ := conn, outputBuf_ := [] } := by
  cases hconnected : s.conn_.connected with
  | true => exact .inr ⟨fun h => absurd h.1.symm Bool.false_ne_true, _,
      sendOutput_whole (.inl hconnected)⟩
  | false =>
    have hdown : ¬ s.conn_.connected = true := by
      rw [hconnected]
      exact Bool.false_ne_true
    have hsend : s.sendOutput = ((StringPiece.ofString s.outputBuf_).bytes.map fun msg =>
        { s.conn_ with sent := s.conn_.sent ++ msg }).map
          fun conn_ => { s with conn_, outputBuf_ := [] } := by
      rw [sendOutput, Connection.sendBuffer, if_neg hdown]
    rw [hsend, StringPiece.bytes_eq, StringPiece.data_ofString, StringPiece.size_ofString]
    by_cases hover : Overruns s.outputBuf_.length
    · rw [if_neg (Nat.not_le.mpr hover)]
      exact .inl ⟨rfl, rfl, hover⟩
    · rw [if_pos (Nat.not_lt.mp hover)]
      exact .inr ⟨fun h => hover h.2, _, rfl⟩

/-- What is in the buffer when the keys have been looked up. -/
def answer (s : Session) (m : Contents) (cas : Bool) (keys : List Bytes) : Bytes :=
  s.outputBuf_ ++ found cas m keys ++ chars "END\r\n"

theorem doGet_eq (h : Refines hash s.owner_ m) (beg : List Token) :
    s.doGet hash beg =
      let cas := decide (s.command_ = chars "gets")
      let keys := beg.map Token.text
      if keys.all short then sendOutput { s with outputBuf_ := s.answer m cas keys }
      else some (reply badFormat
        { s with outputBuf_ := s.outputBuf_ ++ found cas m (keys.takeWhile short) }) := by
  rw [doGet, getItems_eq h]
  simp only [Option.bind_eq_bind, Option.bind_some]
  by_cases hall : (beg.map Token.text).all short = true
  · rw [hall, if_pos rfl, if_pos rfl, if_pos rfl,
      List.takeWhile_eq_self_iff.mpr (List.all_eq_true.mp hall), answer]
  · rw [if_neg hall, if_neg hall, if_neg hall]

theorem doDelete_cons (tok : Token) (beg : List Token) (s : Session) :
    s.doDelete hash (tok :: beg) = some (
      if short tok.text then
        if beg = [] ∨ beg.head?.map Token.text = some (chars "0") then
          { s with owner_ := (s.owner_.deleteItem hash tok.text).2 }.reply
            (if (s.owner_.deleteItem hash tok.text).1 then chars "DELETED\r\n"
              else chars "NOT_FOUND\r\n")
        else s.reply (chars
          "CLIENT_ERROR bad command line format. Usage: delete <key> [noreply]\r\n")
      else s.reply badFormat) := by
  rw [doDelete]
  by_cases hshort : tok.text.length ≤ kLongestKeySize
  · obtain ⟨item, hitem, hkey⟩ := needle_eq hshort
    have hcons : short tok.text = true := decide_eq_true hshort
    by_cases htrail : beg = [] ∨ beg.head?.map Token.text = some (chars "0")
    · rw [if_neg (not_not.mpr hshort), if_neg fun h => htrail.elim h.1 h.2, hitem, if_pos hcons,
        if_pos htrail, Option.bind_eq_bind, Option.bind_some, hkey]
    · rw [if_neg (not_not.mpr hshort), if_pos (not_or.mp htrail), if_pos hcons, if_neg htrail]
  · have hcons : ¬ short tok.text = true := by
      rwa [short, decide_eq_true_iff]
    rw [if_pos hshort, if_neg hcons]

/-- What an update command is given, if that is well formed. -/
def updateFields (policy : UpdatePolicy) (tok : Token) (beg : List Token) : Option Fields :=
  if tok.text.length < kLongestKeySize then readFields policy beg else none

theorem fitsInt_bytes {policy : UpdatePolicy} {tok : Token} {beg : List Token} {f : Fields}
    (h : updateFields policy tok beg = some f) : FitsInt f.bytes := by
  obtain ⟨-, hread⟩ := Option.ite_none_right_eq_some.mp h
  rw [readFields] at hread
  obtain ⟨⟨flags, r₁⟩, -, hread⟩ := Option.bind_eq_some_iff.mp hread
  obtain ⟨⟨exptime, r₂⟩, -, hread⟩ := Option.bind_eq_some_iff.mp hread
  obtain ⟨⟨bytes, r₃⟩, -, hread⟩ := Option.bind_eq_some_iff.mp hread
  dsimp only at hread
  split at hread <;>
  · obtain ⟨cas, -, hread⟩ := Option.bind_eq_some_iff.mp hread
    have hbytes := congrArg Fields.bytes (Option.some.inj hread)
    dsimp only at hbytes
    rw [← hbytes]
    exact fitsInt_castInt _

/-- However the sum wraps around, something is left to discard. -/
theorem discards {bytes : Int} (hlarge : bytes > 1024 * 1024) (hfits : FitsInt bytes) :
    0 < castSize (castInt (bytes + 2)) := by
  have hmod := castSize_castInt_emod (bytes + 2)
  obtain ⟨-, hmax⟩ := hfits
  omega

section

variable {policy : UpdatePolicy} (hpolicy : policyOf s.command_ = some policy) {tok : Token}
  {beg : List Token}
include hpolicy

theorem doUpdate_bad (hfields : updateFields policy tok beg = none) :
    s.doUpdate hash startTime (tok :: beg) =
      some (true, { s with policy_ := policy }.reply badFormat) := by
  rw [updateFields] at hfields
  rw [doUpdate, hpolicy, Option.bind_eq_bind, Option.bind_some]
  simp only [hfields]

theorem doUpdate_large {f : Fields} (hfields : updateFields policy tok beg = some f)
    (hlarge : f.bytes > 1024 * 1024) :
    s.doUpdate hash startTime (tok :: beg) =
      some (false, { { s with policy_ := policy }.reply
          (chars "SERVER_ERROR object too large for cache\r\n") with
        owner_ := (s.owner_.deleteItem hash tok.text).2
        bytesToDiscard_ := castSize (castInt (f.bytes + 2))
        state_ := .kDiscardValue }) := by
  have hkey : tok.text.length < kLongestKeySize := by
    by_contra hkey
    rw [updateFields, if_neg hkey] at hfields
    exact absurd hfields nofun
  obtain ⟨item, hitem, hkeyEq⟩ := needle_eq (Nat.le_of_lt hkey)
  rw [updateFields] at hfields
  rw [doUpdate, hpolicy, Option.bind_eq_bind, Option.bind_some]
  simp only [hfields, if_pos hlarge, hitem, Option.bind_eq_bind, Option.bind_some, hkeyEq, reply_eq]

theorem doUpdate_item {f : Fields} (hfields : updateFields policy tok beg = some f)
    (hpos : 0 ≤ f.bytes) (hsmall : f.bytes ≤ 1024 * 1024) :
    ∃ item, item.Receives tok.text f.flags (relExptime startTime f.exptime) (f.bytes.toNat + 2)
        f.cas [] ∧
      s.doUpdate hash startTime (tok :: beg) =
        some (false, { s with policy_ := policy, currItem_ := some item,
                              state_ := .kReceiveValue }) := by
  have hmax : intMax = 2147483647 := rfl
  have hsize : kLongestKeySize = 250 := rfl
  have hkey : tok.text.length < kLongestKeySize := by
    by_contra hkey
    rw [updateFields, if_neg hkey] at hfields
    exact absurd hfields nofun
  obtain ⟨item, hitem, hreceives⟩ := Item.makeItem_receives tok.text f.flags
    (relExptime startTime f.exptime) f.cas (Nat.le_add_left 2 f.bytes.toNat) (by omega)
  have hlen : ((f.bytes.toNat + 2 : Nat) : Int) = f.bytes + 2 := by omega
  rw [hlen] at hitem
  refine ⟨item, hreceives, ?_⟩
  rw [updateFields] at hfields
  rw [doUpdate, hpolicy, Option.bind_eq_bind, Option.bind_some]
  simp only [hfields, if_neg (not_lt.mpr hsmall), hitem, Option.bind_eq_bind,
    Option.bind_some]

theorem doUpdate_negative {f : Fields} (hfields : updateFields policy tok beg = some f)
    (hneg : f.bytes < 0) : s.doUpdate hash startTime (tok :: beg) = none := by
  have hitem : Item.makeItem tok.text f.flags (relExptime startTime f.exptime) (f.bytes + 2)
    f.cas = none := Item.makeItem_eq_none (.inl (by omega))
  rw [updateFields] at hfields
  rw [doUpdate, hpolicy, Option.bind_eq_bind, Option.bind_some]
  simp only [hfields, if_neg (by omega : ¬ f.bytes > 1024 * 1024), hitem,
    Option.bind_eq_bind, Option.bind_none]

end

/-! ## Where a session is between two turns -/

/-- Nothing is left of an earlier request. -/
structure Idle (s : Session) : Prop where
  command_eq : s.command_ = []
  noreply_eq : s.noreply_ = false
  policy_eq : s.policy_ = .kInvalid
  currItem_eq : s.currItem_ = none
  bytesToDiscard_eq : s.bytesToDiscard_ = 0

/-- Between two requests, or some bytes of a value have not come yet. -/
def Stage (s : Session) : Prop :=
  match s.state_ with
  | .kNewCommand => s.Idle
  | .kReceiveValue => ∃ item, s.currItem_ = some item ∧ item.keylen_ ≤ item.data_.length ∧
      0 < item.neededBytes
  | .kDiscardValue => s.currItem_ = none ∧ 0 < s.bytesToDiscard_

/-- What holds between two turns, whatever other sessions do to the store. -/
structure Inv (hash : Bytes → Nat) (s : Session) : Prop where
  store : ∃ m, Refines hash s.owner_ m
  stage : s.Stage

theorem inv_finish (hstore : ∃ m, Refines hash s.owner_ m) (hstate : s.state_ = .kNewCommand) :
    Inv hash (s.finishRequest true) where
  store := hstore
  stage := by
    rw [Stage, show (s.finishRequest true).state_ = .kNewCommand from hstate]
    exact ⟨rfl, rfl, rfl, rfl, rfl⟩

/-- The command makes the process abort: it lacks a key, or a byte count is negative, or a reply
after the connection has been shut down is too long for an `int`. -/
def Crashes (s : Session) (m : Contents) (command : Bytes) (beg : List Token) : Prop :=
  command = chars "delete" ∧ beg = [] ∨
  (∃ policy, policyOf command = some policy ∧ (beg = [] ∨
    ∃ tok rest f, beg = tok :: rest ∧ updateFields policy tok rest = some f ∧ f.bytes < 0)) ∨
  (command = chars "get" ∨ command = chars "gets") ∧
    (beg.map Token.text).all short = true ∧ s.conn_.connected = false ∧
      Overruns (s.answer m (command = chars "gets") (beg.map Token.text)).length

theorem policyOf_delete : policyOf (chars "delete") = none := by decide

theorem policyOf_get {command : Bytes} (h : command = chars "get" ∨ command = chars "gets") :
    policyOf command = none := by
  rcases h with rfl | rfl <;> decide

theorem crashes_of_none {command : Bytes} (hpolicy : policyOf command = none)
    (hget : ¬ (command = chars "get" ∨ command = chars "gets")) (beg : List Token) :
    s.Crashes m command beg ↔ command = chars "delete" ∧ beg = [] := by
  rw [Crashes, hpolicy]
  constructor
  · rintro (hdelete | ⟨policy, hsome, -⟩ | ⟨hget', -⟩)
    · exact hdelete
    · exact absurd hsome nofun
    · exact absurd hget' hget
  · exact .inl

theorem crashes_of_get {command : Bytes} (hget : command = chars "get" ∨ command = chars "gets")
    (beg : List Token) : s.Crashes m command beg ↔
      (beg.map Token.text).all short = true ∧ s.conn_.connected = false ∧
        Overruns (s.answer m (command = chars "gets") (beg.map Token.text)).length := by
  constructor
  · rintro (⟨rfl, -⟩ | ⟨policy, hsome, -⟩ | ⟨-, hover⟩)
    · exact absurd hget (by decide)
    · exact absurd ((policyOf_get hget).symm.trans hsome) nofun
    · exact hover
  · exact fun hover => .inr (.inr ⟨hget, hover⟩)

theorem crashes_cons {command : Bytes} {policy : UpdatePolicy}
    (hpolicy : policyOf command = some policy) (tok : Token) (beg : List Token) :
    s.Crashes m command (tok :: beg) ↔
      ∃ f, updateFields policy tok beg = some f ∧ f.bytes < 0 := by
  constructor
  · rintro (⟨rfl, -⟩ | ⟨policy', hpolicy', hnil | ⟨tok', rest, f, hcons, hfields, hbytes⟩⟩ |
      ⟨hget, -⟩)
    · exact absurd (policyOf_delete.symm.trans hpolicy) nofun
    · exact absurd hnil nofun
    · obtain ⟨rfl, rfl⟩ := List.cons.inj hcons
      obtain rfl := Option.some.inj (hpolicy.symm.trans hpolicy')
      exact ⟨f, hfields, hbytes⟩
    · exact absurd ((policyOf_get hget).symm.trans hpolicy) nofun
  · rintro ⟨f, hfields, hbytes⟩
    exact .inr (.inl ⟨policy, hpolicy, .inr ⟨tok, beg, f, rfl, hfields, hbytes⟩⟩)

/-- What an update command does: it aborts, or leaves the session between two turns. -/
theorem doUpdate_cases (hm : Refines hash s.owner_ m) (hstate : s.state_ = .kNewCommand)
    (hitem : s.currItem_ = none) {policy : UpdatePolicy}
    (hpolicy : policyOf s.command_ = some policy) (beg : List Token) :
    s.doUpdate hash startTime beg = none ∧ s.Crashes m s.command_ beg ∨
    ¬ s.Crashes m s.command_ beg ∧ ∃ finished s', s.doUpdate hash startTime beg =
      some (finished, s') ∧ Inv hash (s'.finishRequest finished) := by
  cases beg with
  | nil =>
    refine .inl ⟨?_, .inr (.inl ⟨policy, hpolicy, .inl rfl⟩)⟩
    rw [doUpdate, hpolicy]
    rfl
  | cons tok beg =>
    rw [crashes_cons hpolicy]
    cases hfields : updateFields policy tok beg with
    | none =>
      refine .inr ⟨fun hcrash => ?_, _, _, doUpdate_bad hpolicy hfields, inv_finish ⟨m, ?_⟩ ?_⟩
      · obtain ⟨f, hf, -⟩ := hcrash
        exact absurd hf nofun
      · rwa [reply_owner]
      · rwa [reply_state]
    | some f =>
      simp only [Option.some.injEq, exists_eq_left']
      rcases lt_or_ge f.bytes 0 with hneg | hpos
      · exact .inl ⟨doUpdate_negative hpolicy hfields hneg, hneg⟩
      refine .inr ⟨not_lt.mpr hpos, ?_⟩
      rcases le_or_gt f.bytes (1024 * 1024) with hsmall | hlarge
      · obtain ⟨item, hreceives, hupdate⟩ := doUpdate_item hpolicy hfields hpos hsmall
        refine ⟨_, _, hupdate, ⟨m, hm⟩, item, rfl, ?_, ?_⟩
        · rw [hreceives.keylen_eq, hreceives.data_eq, List.append_nil]
        · rw [hreceives.neededBytes_eq, List.length_nil]
          omega
      · refine ⟨_, _, doUpdate_large hpolicy hfields hlarge, ⟨_, hm.drop tok.text⟩, ?_,
          discards hlarge (fitsInt_bytes hfields)⟩
        rw [reply_eq]
        exact hitem

/-- What a command does: it aborts, or leaves the session between two turns. -/
theorem dispatch_cases (hm : Refines hash s.owner_ m) (hstate : s.state_ = .kNewCommand)
    (hitem : s.currItem_ = none) (command : Bytes) (beg : List Token) :
    s.dispatch hash startTime command beg = none ∧ s.Crashes m command beg ∨
    ¬ s.Crashes m command beg ∧ ∃ finished s', s.dispatch hash startTime command beg =
      some (finished, s') ∧ Inv hash (s'.finishRequest finished) := by
  have hdone {s' : Session} (howner : ∃ m, Refines hash s'.owner_ m)
      (hstate' : s'.state_ = s.state_) : ∃ finished s'', some (true, s') = some (finished, s'') ∧
        Inv hash (s''.finishRequest finished) :=
    ⟨true, s', rfl, inv_finish howner (hstate'.trans hstate)⟩
  rw [dispatch]
  cases hpolicy : policyOf command with
  | some policy =>
    rw [Option.isSome_some, if_pos rfl]
    exact doUpdate_cases (s := { s with command_ := command }) hm hstate hitem hpolicy beg
  | none =>
    rw [Option.isSome_none, if_neg Bool.false_ne_true]
    by_cases hget : command = chars "get" ∨ command = chars "gets"
    · rw [if_pos hget, crashes_of_get hget, doGet_eq (s := { s with command_ := command }) hm]
      dsimp only
      by_cases hall : (beg.map Token.text).all short = true
      · rw [if_pos hall]
        rcases sendOutput_cases { s with
            command_ := command
            outputBuf_ := s.answer m (command = chars "gets") (beg.map Token.text) } with
          ⟨hnone, hover⟩ | ⟨hfits, conn, hsome⟩
        · exact .inl ⟨congrArg (Option.bind · fun s => some (true, s)) hnone, hall, hover⟩
        · refine .inr ⟨fun hover => hfits hover.2, ?_⟩
          have hrun := congrArg (Option.bind · fun s => some (true, s)) hsome
          exact ⟨true, _, hrun, inv_finish ⟨m, hm⟩ hstate⟩
      · rw [if_neg hall]
        exact .inr ⟨fun hover => hall hover.1, hdone ⟨m, by rwa [reply_owner]⟩ (reply_state _ _)⟩
    rw [if_neg hget, crashes_of_none hpolicy hget]
    by_cases hdelete : command = chars "delete"
    · rw [if_pos hdelete]
      cases beg with
      | nil => exact .inl ⟨rfl, hdelete, rfl⟩
      | cons tok beg =>
        rw [doDelete_cons]
        refine .inr ⟨fun hcrash => absurd hcrash.2 nofun, ?_⟩
        dsimp only [Option.bind_eq_bind, Option.bind_some]
        split
        · split
          · exact hdone ⟨_, by rw [reply_owner]; exact hm.drop tok.text⟩ (reply_state _ _)
          · exact hdone ⟨m, by rwa [reply_owner]⟩ (reply_state _ _)
        · exact hdone ⟨m, by rwa [reply_owner]⟩ (reply_state _ _)
    rw [if_neg hdelete]
    refine .inr ⟨fun hcrash => hdelete hcrash.1, ?_⟩
    split
    · exact hdone ⟨m, by rwa [reply_owner]⟩ (reply_state _ _)
    split
    · exact hdone ⟨m, hm⟩ rfl
    split
    · exact hdone ⟨m, hm⟩ rfl
    · exact hdone ⟨m, by rwa [reply_owner]⟩ (reply_state _ _)

theorem processRequest_eq (h : s.Idle) (request beyond : Bytes) :
    s.processRequest hash startTime request beyond =
      runCommand hash startTime (tokens (body request) (beyondWords request beyond))
        { s with noreply_ := (stripNoreply request).isSome } := by
  rw [processRequest, assert_pos h.command_eq, assert_pos h.noreply_eq, assert_pos h.policy_eq,
    assert_pos h.currItem_eq, assert_pos h.bytesToDiscard_eq, body, beyondWords]
  simp only [Option.bind_eq_bind, Option.bind_some]
  cases stripNoreply request with
  | none =>
    have hnoreply : { s with noreply_ := false } = s := by rw [← h.noreply_eq]
    simp only [Option.isSome_none, Option.getD_none, hnoreply, Bool.false_eq_true, if_false]
  | some request' => rfl

/-- The request makes the process abort. -/
def BadRequest (s : Session) (m : Contents) (request beyond : Bytes) : Prop :=
  ∃ tok beg, tokens (body request) (beyondWords request beyond) = tok :: beg ∧
    s.Crashes m tok.text beg

theorem processRequest_cases (h : Inv hash s) (hm : Refines hash s.owner_ m)
    (hstate : s.state_ = .kNewCommand) (request beyond : Bytes) :
    s.processRequest hash startTime request beyond = none ∧ s.BadRequest m request beyond ∨
    ¬ s.BadRequest m request beyond ∧
      ∃ finished s', s.processRequest hash startTime request beyond = some (finished, s') ∧
        Inv hash (s'.finishRequest finished) := by
  have hidle : s.Idle := by
    have hstage := h.stage
    rwa [Stage, hstate] at hstage
  rw [processRequest_eq hidle, BadRequest]
  cases tokens (body request) (beyondWords request beyond) with
  | nil =>
    refine .inr ⟨fun ⟨_, _, hnil, _⟩ => absurd hnil nofun, true, _, rfl, inv_finish ?_ ?_⟩
    · rw [reply_owner]
      exact h.store
    · rwa [reply_state]
  | cons tok beg =>
    have hbad : (∃ tok' beg', tok :: beg = tok' :: beg' ∧ s.Crashes m tok'.text beg') ↔
        s.Crashes m tok.text beg := by
      simp only [List.cons.injEq, exists_and_left, exists_eq_left', and_assoc]
    rw [hbad]
    exact dispatch_cases (s := { s with noreply_ := (stripNoreply request).isSome }) hm hstate
      hidle.currItem_eq tok.text beg

/-! ## Values -/

section

variable {item : Item} (hitem : s.currItem_ = some item)
include hitem

theorem receiveValue_part {buf : Bytes} {item' : Item} (happend : item.append buf = some item')
    (hlt : buf.length < item.neededBytes) :
    s.receiveValue hash buf = some ({ s with currItem_ := some item' }, []) := by
  have hneeded := Item.neededBytes_of_append happend
  have hmin : min buf.length item.neededBytes = buf.length := Nat.min_eq_left (Nat.le_of_lt hlt)
  rw [receiveValue, hitem]
  simp only [Option.bind_eq_bind, Option.bind_some, hmin, List.take_length, happend,
    List.drop_length]
  exact if_neg (by omega)

theorem receiveValue_whole {buf : Bytes} {item' : Item}
    (happend : item.append (buf.take item.neededBytes) = some item')
    (hle : item.neededBytes ≤ buf.length) :
    s.receiveValue hash buf =
      (storeValue hash item' { s with currItem_ := some item' }).map fun s' =>
        ({ s'.resetRequest with state_ := .kNewCommand }, buf.drop item.neededBytes) := by
  have hneeded := Item.neededBytes_of_append happend
  rw [List.length_take_of_le hle, Nat.sub_self] at hneeded
  have hmin : min buf.length item.neededBytes = item.neededBytes := Nat.min_eq_right hle
  rw [receiveValue, hitem]
  simp only [Option.bind_eq_bind, Option.bind_some, hmin, happend, hneeded, if_true]
  cases storeValue hash item' { s with currItem_ := some item' } <;> rfl

/-- A value may come in two pieces. -/
theorem receiveValue_append {buf : Bytes} {item' : Item} (happend : item.append buf = some item')
    (hlt : buf.length < item.neededBytes) (more : Bytes) :
    s.receiveValue hash (buf ++ more) =
      receiveValue hash more { s with currItem_ := some item' } := by
  have hneeded := Item.neededBytes_of_append happend
  have havail : min (buf ++ more).length item.neededBytes =
      buf.length + min more.length item'.neededBytes := by
    rw [List.length_append]
    omega
  rw [receiveValue, receiveValue, hitem]
  simp only [Option.bind_eq_bind, Option.bind_some, havail, List.take_length_add_append,
    List.drop_length_add_append, Item.append_bind, happend]

end

/-- A value that is complete goes to the store. -/
theorem storeValue_holds (h : Refines hash s.owner_ m) {item : Item} {key : Bytes}
    {v : Item.Value} {token : UInt64} (hholds : item.Holds key v token) :
    let c := Command.store s.policy_ key v token
    (c.Fits (m.entry key) → ∃ owner', s.storeValue hash item = some
        ({ s with owner_ := owner' }.reply (updateReply s.policy_
          (wins s.policy_ token (m.entry key) || s.policy_ = UpdatePolicy.kInvalid)
          (m.entry key).isSome)) ∧ Refines hash owner' (m.step c.operation)) ∧
    (¬ c.Fits (m.entry key) → s.storeValue hash item = none) := by
  obtain ⟨hgood, hbad⟩ := h.storeItem hholds s.policy_
  rw [storeValue, if_pos hholds.endsWithCRLF]
  constructor
  · intro hfits
    obtain ⟨owner', howner, href⟩ := hgood hfits
    exact ⟨owner', by rw [howner]; rfl, href⟩
  · intro hfits
    rw [hbad hfits]
    rfl

end

end Cnet.Examples.Memcached.Session
