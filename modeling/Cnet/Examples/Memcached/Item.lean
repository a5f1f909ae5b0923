import Cnet.Net.Buffer
import Cnet.Base.LogContent
import Cnet.Base.Casts

/-!
# Items of the memcached server

An `Item` is a key and a value in one block, which is filled from the front. `data_` is the
part that has been filled, so `receivedBytes_` is its length. The value ends with CRLF, and
the two bytes count for its length.
-/

namespace Cnet.Examples.Memcached

open Cnet.Support Cnet.Base
open Cnet.Net (Bytes)

def crlf : Bytes := chars "\r\n"

/-- `Item`, where `hash_` is the hash of the key. The fields that are no data are what the
asserts of the constructor and of `append` say, and that `totalLen()` is an `int`. -/
structure Item where
  keylen_ : Nat
  flags_ : UInt32
  rel_exptime_ : Int
  valuelen_ : Nat
  cas_ : UInt64
  data_ : Bytes
  two_le : 2 ≤ valuelen_
  fits : (keylen_ + valuelen_ : Nat) ≤ intMax
  received_le : data_.length ≤ keylen_ + valuelen_
deriving DecidableEq

namespace Item

inductive UpdatePolicy
  | kInvalid
  | kSet
  | kAdd
  | kReplace
  | kAppend
  | kPrepend
  | kCas
deriving DecidableEq, Repr

def key (item : Item) : Bytes := item.data_.take item.keylen_

def value (item : Item) : Bytes := item.data_.drop item.keylen_

def valueLength (item : Item) : Nat := item.valuelen_

def setCas (item : Item) (casArg : UInt64) : Item := { item with cas_ := casArg }

def totalLen (item : Item) : Nat := item.keylen_ + item.valuelen_

def neededBytes (item : Item) : Nat := item.totalLen - item.data_.length

def append (item : Item) (data : Bytes) : Option Item :=
  if h : data.length ≤ item.neededBytes then
    some { item with
      data_ := item.data_ ++ data
      received_le := by
        have hroom := item.received_le
        rw [neededBytes, totalLen] at h
        rw [List.length_append]
        omega }
  else none

/-- `makeItem`, that is the constructor. A sum that is no `int` has no value. -/
def makeItem (keyArg : Bytes) (flagsArg : UInt32) (exptimeArg valuelen : Int) (casArg : UInt64) :
    Option Item :=
  if h : 2 ≤ valuelen ∧ keyArg.length + valuelen ≤ intMax then
    append {
      keylen_ := keyArg.length
      flags_ := flagsArg
      rel_exptime_ := exptimeArg
      valuelen_ := valuelen.toNat
      cas_ := casArg
      data_ := []
      two_le := by omega
      fits := by omega
      received_le := Nat.zero_le _ } keyArg
  else none

def endsWithCRLF (item : Item) : Bool :=
  item.data_.length = item.totalLen && item.data_.drop (item.totalLen - 2) = crlf

/-- What `output` inserts into its stream. -/
def numbers (item : Item) (needCas : Bool) : List Piece :=
  [.char 32, .unsignedInt item.flags_, .char 32, .int (Int32.ofInt (item.valuelen_ - 2))] ++
    (if needCas then [.char 32, .unsignedLong item.cas_] else []) ++ [.cString (some crlf)]

/-- What `output` appends to the buffer. -/
def output (item : Item) (needCas : Bool) : Option Bytes := do
  let buf ← (LogStream.new LogStream.zeros).insertAll (fun _ => []) (item.numbers needCas)
  some (chars "VALUE " ++ item.key ++ buf.content ++ item.value.take item.valuelen_)

/-- `resetKey`, on the item that a session looks keys up with. -/
def resetKey (item : Item) (k : Bytes) : Option Item :=
  if h : k.length ≤ 250 ∧ (k.length + item.valuelen_ : Nat) ≤ intMax then
    append { item with
      keylen_ := k.length
      data_ := []
      fits := h.2
      received_le := Nat.zero_le _ } k
  else none

/-! ## What is in an item -/

/-- The item is for a value of `len` bytes, of which some have been received. -/
structure Receives (item : Item) (key : Bytes) (flags : UInt32) (exptime : Int) (len : Nat)
    (cas : UInt64) (received : Bytes) : Prop where
  keylen_eq : item.keylen_ = key.length
  flags_eq : item.flags_ = flags
  exptime_eq : item.rel_exptime_ = exptime
  valuelen_eq : item.valuelen_ = len
  cas_eq : item.cas_ = cas
  data_eq : item.data_ = key ++ received

/-- What a client has stored under a key. -/
structure Value where
  flags : UInt32
  exptime : Int
  data : Bytes
deriving DecidableEq, Repr

/-- The item is complete. -/
abbrev Holds (item : Item) (key : Bytes) (v : Value) (cas : UInt64) : Prop :=
  item.Receives key v.flags v.exptime (v.data.length + 2) cas (v.data ++ crlf)

variable {item : Item} {key received data : Bytes} {flags : UInt32} {exptime : Int} {len : Nat}
  {cas : UInt64}

theorem append_eq (item : Item) {data : Bytes} (h : data.length ≤ item.neededBytes) :
    ∃ item', item.append data = some item' ∧ item'.data_ = item.data_ ++ data ∧
      item'.keylen_ = item.keylen_ ∧ item'.flags_ = item.flags_ ∧
      item'.rel_exptime_ = item.rel_exptime_ ∧ item'.valuelen_ = item.valuelen_ ∧
      item'.cas_ = item.cas_ :=
  ⟨_, dif_pos h, rfl, rfl, rfl, rfl, rfl, rfl⟩

theorem makeItem_receives (key : Bytes) (flags : UInt32) (exptime : Int) {len : Nat} (cas : UInt64)
    (hlen : 2 ≤ len) (hfits : (key.length + len : Nat) ≤ intMax) :
    ∃ item, makeItem key flags exptime len cas = some item ∧
      item.Receives key flags exptime len cas [] := by
  rw [makeItem, dif_pos ⟨by omega, by omega⟩]
  obtain ⟨item, hitem, hdata, hkeylen, hflags, hexptime, hvaluelen, hcas⟩ :=
    append_eq ⟨key.length, flags, exptime, (len : Int).toNat, cas, [], by omega, by omega,
      Nat.zero_le _⟩ (Nat.le_add_right key.length _)
  refine ⟨item, hitem, hkeylen, hflags, hexptime, hvaluelen, hcas, ?_⟩
  rw [hdata, List.append_nil]
  rfl

theorem makeItem_eq_none {valuelen : Int} (h : valuelen < 2 ∨ intMax < key.length + valuelen) :
    makeItem key flags exptime valuelen cas = none :=
  dif_neg (by omega)

theorem neededBytes_of_append {item' : Item} (h : item.append data = some item') :
    item'.neededBytes = item.neededBytes - data.length := by
  by_cases hle : data.length ≤ item.neededBytes
  · obtain ⟨_, hitem', hdata, hkeylen, -, -, hvaluelen, -⟩ := append_eq item hle
    obtain rfl := Option.some.inj (hitem'.symm.trans h)
    rw [neededBytes, neededBytes, totalLen, totalLen, hdata, hkeylen, hvaluelen,
      List.length_append, Nat.sub_add_eq]
  · rw [append, dif_neg hle] at h
    exact absurd h nofun

/-- An item with its key in it. -/
theorem receives_self (h : item.keylen_ ≤ item.data_.length) :
    item.Receives item.key item.flags_ item.rel_exptime_ item.valuelen_ item.cas_ item.value :=
  ⟨(List.length_take_of_le h).symm, rfl, rfl, rfl, rfl, (List.take_append_drop _ _).symm⟩

/-- Two pieces come to the same as the two together. -/
theorem append_bind (item : Item) (a b : Bytes) :
    item.append (a ++ b) = (item.append a).bind fun item => item.append b := by
  by_cases ha : a.length ≤ item.neededBytes
  · obtain ⟨item', hitem', hdata, hkeylen, hflags, hexptime, hvaluelen, hcas⟩ := append_eq item ha
    have hneeded := neededBytes_of_append hitem'
    have hlen : (a ++ b).length = a.length + b.length := List.length_append
    rw [hitem', Option.bind_some, append, append]
    by_cases hb : b.length ≤ item'.neededBytes
    · rw [dif_pos hb, dif_pos (by omega)]
      simp only [hdata, hkeylen, hflags, hexptime, hvaluelen, hcas, List.append_assoc]
    · rw [dif_neg hb, dif_neg (by omega)]
  · have hlen : (a ++ b).length = a.length + b.length := List.length_append
    rw [append, append, dif_neg ha, dif_neg (by omega)]
    rfl

namespace Receives

variable (h : item.Receives key flags exptime len cas received)
include h

theorem key_eq : item.key = key := by
  rw [Item.key, h.data_eq, h.keylen_eq, List.take_left]

theorem value_eq : item.value = received := by
  rw [Item.value, h.data_eq, h.keylen_eq, List.drop_left]

theorem neededBytes_eq : item.neededBytes = len - received.length := by
  rw [neededBytes, totalLen, h.data_eq, h.keylen_eq, h.valuelen_eq, List.length_append]
  omega

theorem two_le : 2 ≤ len := by
  rw [← h.valuelen_eq]
  exact item.two_le

theorem length_le : received.length ≤ len := by
  have hroom := item.received_le
  rw [h.data_eq, h.keylen_eq, h.valuelen_eq, List.length_append] at hroom
  omega

theorem fits : (key.length + len : Nat) ≤ intMax := by
  rw [← h.valuelen_eq, ← h.keylen_eq]
  exact item.fits

/-- One more piece of the value. -/
theorem append (data : Bytes) (hroom : received.length + data.length ≤ len) :
    ∃ item', item.append data = some item' ∧
      item'.Receives key flags exptime len cas (received ++ data) := by
  obtain ⟨item', hitem', hdata, hkeylen, hflags, hexptime, hvaluelen, hcas⟩ :=
    append_eq item (by rw [h.neededBytes_eq]; omega : data.length ≤ item.neededBytes)
  refine ⟨item', hitem', hkeylen.trans h.keylen_eq, hflags.trans h.flags_eq,
    hexptime.trans h.exptime_eq, hvaluelen.trans h.valuelen_eq, hcas.trans h.cas_eq, ?_⟩
  rw [hdata, h.data_eq, List.append_assoc]

theorem setCas (cas' : UInt64) :
    (item.setCas cas').Receives key flags exptime len cas' received :=
  ⟨h.keylen_eq, h.flags_eq, h.exptime_eq, h.valuelen_eq, rfl, h.data_eq⟩

theorem endsWithCRLF_eq (hall : received.length = len) :
    item.endsWithCRLF = decide (received.drop (len - 2) = crlf) := by
  have htwo := h.two_le
  have htotal : item.totalLen = key.length + len := by
    rw [totalLen, h.keylen_eq, h.valuelen_eq]
  have hskip : key.length + len - 2 = key.length + (len - 2) := by omega
  rw [endsWithCRLF, htotal, h.data_eq, List.length_append, hall, hskip, List.drop_append,
    List.drop_eq_nil_of_le (Nat.le_add_right _ _), List.nil_append, Nat.add_sub_cancel_left,
    decide_eq_true rfl, Bool.true_and]

end Receives

namespace Holds

variable {v : Value} (h : item.Holds key v cas)
include h

theorem neededBytes_eq_zero : item.neededBytes = 0 := by
  have hcrlf : crlf.length = 2 := rfl
  rw [h.neededBytes_eq, List.length_append, hcrlf, Nat.sub_self]

theorem endsWithCRLF : item.endsWithCRLF = true := by
  have hcrlf : crlf.length = 2 := rfl
  rw [h.endsWithCRLF_eq (by rw [List.length_append, hcrlf]), Nat.add_sub_cancel, List.drop_left,
    decide_eq_true rfl]

/-- The value without the two bytes that end it. -/
theorem data_take : item.value.take (item.valueLength - 2) = v.data := by
  rw [h.value_eq, valueLength, h.valuelen_eq, Nat.add_sub_cancel, List.take_left]

end Holds

/-- A complete value is its data and CRLF. -/
theorem Receives.holds (h : item.Receives key flags exptime len cas received)
    (hall : received.length = len) (hends : item.endsWithCRLF = true) :
    item.Holds key ⟨flags, exptime, received.take (len - 2)⟩ cas := by
  have htwo := h.two_le
  rw [h.endsWithCRLF_eq hall, decide_eq_true_iff] at hends
  refine ⟨h.keylen_eq, h.flags_eq, h.exptime_eq, ?_, h.cas_eq, ?_⟩
  · rw [h.valuelen_eq, List.length_take_of_le (by omega)]
    omega
  · rw [h.data_eq, ← hends, List.take_append_drop]

/-! ## What a client sees of an item -/

/-- The answer to a `get`, or to a `gets`, for one key. -/
def valueText (key : Bytes) (v : Value) (cas : Option UInt64) : Bytes :=
  chars "VALUE " ++ key ++ chars " " ++ decimalText v.flags.toNat ++ chars " " ++
    decimalText v.data.length ++ (cas.elim [] fun cas => chars " " ++ decimalText cas.toNat) ++
    crlf ++ v.data ++ crlf

section

variable {v : Value} (h : item.Holds key v cas)
include h

theorem Holds.text_numbers (needCas : Bool) :
    (item.numbers needCas).flatMap (Piece.text fun _ => []) =
      chars " " ++ decimalText v.flags.toNat ++ chars " " ++ decimalText v.data.length ++
        ((if needCas then some cas else none).elim [] fun cas =>
          chars " " ++ decimalText cas.toNat) ++ crlf := by
  have hfits := h.fits
  have hmax : intMax = 2147483647 := rfl
  have hlen : (Int32.ofInt (item.valuelen_ - 2)).toInt = v.data.length := by
    rw [h.valuelen_eq, Int32.toInt_ofInt_of_le (by omega) (by omega)]
    omega
  have hblank : chars " " = [32] := rfl
  rw [numbers]
  generalize Int32.ofInt (item.valuelen_ - 2) = n at hlen ⊢
  cases needCas <;> simp [Piece.text, h.flags_eq, h.cas_eq, hlen, hblank]

omit h in
theorem length_numbers (item : Item) (needCas : Bool) :
    ((item.numbers needCas).flatMap (Piece.text fun _ => [])).length ≤ 72 := by
  have hlen : ((Piece.int (Int32.ofInt (item.valuelen_ - 2))).text fun _ => []).length ≤ 20 :=
    length_decimalText_le (by have := (Int32.ofInt (item.valuelen_ - 2)).le_toInt; omega)
      (by have := (Int32.ofInt (item.valuelen_ - 2)).toInt_lt; omega)
  have hcas : ((Piece.unsignedLong item.cas_).text fun _ => []).length ≤ 20 :=
    length_decimalText_le (by omega) (by have := item.cas_.toNat_lt; omega)
  have hflags : ((Piece.unsignedInt item.flags_).text fun _ => []).length ≤ 20 :=
    length_decimalText_le (by omega) (by have := item.flags_.toNat_lt; omega)
  have hblank : ((Piece.char 32).text fun _ => []).length = 1 := rfl
  have hcrlf : ((Piece.cString (some crlf)).text fun _ => []).length = 2 := rfl
  rw [numbers]
  cases needCas
  all_goals
    simp only [Bool.false_eq_true, if_false, if_true, List.flatMap_append, List.flatMap_cons,
      List.flatMap_nil, List.length_append, List.length_nil]
    omega

theorem Holds.output (needCas : Bool) :
    item.output needCas = some (valueText key v (if needCas then some cas else none)) := by
  obtain ⟨s, hs, -, hcontent⟩ :=
    @LogStream.insertAll_inside (LogStream.new LogStream.zeros) (fun _ => [])
      (by decide : 0 < kSmallBuffer) (fun _ => Nat.succ_pos _) (item.numbers needCas)
  have hempty : (LogStream.new LogStream.zeros).content = [] := rfl
  have hroom := length_numbers item needCas
  rw [hempty, LogStream.foldl_accept (show 0 + _ + 32 < 4000 by omega), h.text_numbers,
    List.nil_append] at hcontent
  have htake : item.value.take item.valuelen_ = v.data ++ crlf := by
    have hcrlf : crlf.length = 2 := rfl
    rw [h.value_eq, h.valuelen_eq, List.take_of_length_le]
    rw [List.length_append, hcrlf]
  rw [Item.output, hs, Option.bind_eq_bind, Option.bind_some, hcontent, htake, h.key_eq, valueText]
  simp only [List.append_assoc]

end

end Item

end Cnet.Examples.Memcached
