import Cnet.Base.StringPiece
import Cnet.Support.Lexicographic

/-!
# The order of string pieces

`compare`, `starts_with` and `==` are written one by one over `memcmp`, whose result has a
sign that is known and a size that is not. A string is said to start with the strings that
are shorter than it and not with itself.
-/

namespace Cnet.Base

open Cnet.Support

/-- `memcmp` compares bytes as numbers without a sign. -/
def Below (a b : UInt8) : Prop := a.toNat < b.toNat

instance : Std.Irrefl Below := ⟨fun _ => Nat.lt_irrefl _⟩

instance : IsTrans UInt8 Below := ⟨fun _ _ _ => Nat.lt_trans⟩

instance : Std.Trichotomous Below := ⟨fun _ _ hab hba =>
  UInt8.toNat_inj.mp (Nat.le_antisymm (Nat.le_of_not_lt hba) (Nat.le_of_not_lt hab))⟩

/-- What `memcmp` returns for two blocks. -/
structure Memcmp where
  result : List UInt8 → List UInt8 → Int
  sign : ∀ s t, SignOfDifference Below (result s t) s t

/-- `memcmp(p, q, n)` -/
def Memcmp.call (memcmp : Memcmp) (p q : List UInt8) (n : Nat) : Option Int := do
  let s ← load p 0 n
  let t ← load q 0 n
  some (memcmp.result s t)

/-- A `memcmp` that returns the difference of the bytes. -/
def Memcmp.difference : Memcmp where
  result s t := (firstDifference s t).elim 0 fun p => p.1.toNat - p.2.toNat
  sign s t := by
    constructor
    · intro h
      rw [h]
      rfl
    · intro a b h
      rw [h, Option.elim_some, Below]
      dsimp only
      omega
    · intro a b h
      rw [h, Option.elim_some, Below]
      dsimp only
      omega

namespace StringPiece

variable (memcmp : Memcmp)

def compare (s x : StringPiece) : Option Int := do
  let n := if s.length_ < x.length_ then s.length_ else x.length_
  let r ← memcmp.call s.ptr_ x.ptr_ (castSize n)
  some (if r = 0 then
    if s.length_ < x.length_ then -1 else if s.length_ > x.length_ then 1 else r
  else r)

/-- `starts_with` -/
def startsWith (s x : StringPiece) : Option Bool :=
  if s.length_ > x.length_ then
    (memcmp.call s.ptr_ x.ptr_ (castSize x.length_)).map fun r => decide (r = 0)
  else some false

/-- `operator==` -/
def equal (lhs rhs : StringPiece) : Option Bool :=
  if lhs.length_ = rhs.length_ then
    (memcmp.call lhs.ptr_ rhs.ptr_ (castSize lhs.length_)).map fun r => decide (r = 0)
  else some false

/-- `operator!=` -/
def notEqual (lhs rhs : StringPiece) : Option Bool := (equal memcmp lhs rhs).map (!·)

end StringPiece

/-- A piece of which as much can be read as its length says. A null pointer is one from
which nothing can be read. -/
structure ByteString where
  piece : StringPiece
  nonneg : 0 ≤ piece.length_
  readable : piece.length_ ≤ piece.ptr_.length
  fits : FitsInt piece.length_

namespace ByteString

/-- The bytes of a piece. -/
def string (x : ByteString) : List UInt8 := x.piece.ptr_.take x.piece.length_.toNat

/-- `StringPiece(const string&)`, of a string whose size is an `int`. -/
def ofString (str : List UInt8) (h : str.length < 2147483648) : ByteString where
  piece := .ofString str
  nonneg := by
    rw [StringPiece.ofString_eq h]
    exact Int.natCast_nonneg _
  readable := Int.le_of_eq (by rw [StringPiece.ofString_eq h])
  fits := by
    rw [StringPiece.ofString_eq h]
    dsimp only
    omega

theorem string_ofString {str : List UInt8} (h : str.length < 2147483648) :
    (ofString str h).string = str := by
  have hpiece : (ofString str h).piece = ⟨str, str.length⟩ := StringPiece.ofString_eq h
  rw [string, hpiece, Int.toNat_natCast, List.take_length]

variable (x y z : ByteString)

theorem length_string : x.string.length = x.piece.length_.toNat := by
  have hreadable := x.readable
  rw [string, List.length_take]
  omega

theorem length_eq : x.piece.length_ = x.string.length := by
  rw [length_string, Int.toNat_of_nonneg x.nonneg]

theorem load_string {k : Nat} (h : (k : Int) ≤ x.piece.length_) :
    load x.piece.ptr_ 0 k = some (x.string.take k) := by
  have hreadable := x.readable
  rw [load_of_le (by omega), slice, Nat.zero_add, Nat.sub_zero, List.drop_zero, string,
    List.take_take, Nat.min_eq_left (by omega)]

/-! ## What the functions return -/

variable (memcmp : Memcmp)

/-- A call over a length that no piece exceeds and one of them has. -/
theorem call_spec {n : Int} (hx : n ≤ x.piece.length_) (hy : n ≤ y.piece.length_)
    (hn : n = x.piece.length_ ∨ n = y.piece.length_) :
    ∃ v, memcmp.call x.piece.ptr_ y.piece.ptr_ (castSize n) = some v ∧
      SignOfDifference Below v x.string y.string := by
  have hxn := x.nonneg
  have hyn := y.nonneg
  have hxf := x.fits
  have hword : wordSize = 18446744073709551616 := rfl
  obtain ⟨k, rfl⟩ := Int.eq_ofNat_of_zero_le (show 0 ≤ n by omega)
  have hcast : castSize k = k := castSize_natCast (by omega)
  refine ⟨memcmp.result (x.string.take k) (y.string.take k), ?_, (memcmp.sign _ _).of_take ?_⟩
  · rw [Memcmp.call, hcast, x.load_string hx, y.load_string hy]
    rfl
  · rw [length_string, length_string]
    omega

/-- The sign of `compare` is the lexicographic order. -/
theorem compare_spec : ∃ v, x.piece.compare memcmp y.piece = some v ∧
    SignOfOrder Below v x.string y.string := by
  have hxl := x.length_eq
  have hyl := y.length_eq
  obtain ⟨v, hcall, hsign⟩ := call_spec x y memcmp
    (n := if x.piece.length_ < y.piece.length_ then x.piece.length_ else y.piece.length_)
    (by split <;> omega) (by split <;> omega) (by split <;> simp)
  rw [StringPiece.compare, hcall]
  refine ⟨_, rfl, ?_⟩
  by_cases hv : v = 0
  · rw [if_pos hv]
    refine signOfOrder_of_lengths (hsign.zero_iff.mp hv) ?_ ?_
    · split_ifs <;> omega
    · split_ifs <;> omega
  · rw [if_neg hv]
    exact hsign.signOfOrder hv

/-- Bytes above 127 are not negative. -/
example : (ofString [97, 200] (by decide)).piece.compare .difference
    (ofString [97, 98, 99] (by decide)).piece = some 102 := by decide

/-- Pieces are equal if their strings are. -/
theorem equal_spec : x.piece.equal memcmp y.piece = some (decide (x.string = y.string)) := by
  have hxl := x.length_eq
  have hyl := y.length_eq
  rw [StringPiece.equal]
  by_cases hlen : x.piece.length_ = y.piece.length_
  · obtain ⟨v, hcall, hsign⟩ := call_spec x y memcmp (Int.le_refl _) (Int.le_of_eq hlen)
      (Or.inl rfl)
    have hiff : v = 0 ↔ x.string = y.string := by
      rw [hsign.zero_iff, eq_iff_firstDifference, and_iff_left (by omega)]
    rw [if_pos hlen, hcall, Option.map_some, decide_eq_decide.mpr hiff]
  · have hne : x.string ≠ y.string := fun heq => hlen (by rw [hxl, hyl, heq])
    rw [if_neg hlen, decide_eq_false hne]

/-- A piece starts with the strings that are shorter and begin it. -/
theorem startsWith_spec : ∃ b, x.piece.startsWith memcmp y.piece = some b ∧
    (b = true ↔ y.string <+: x.string ∧ x.string ≠ y.string) := by
  have hxl := x.length_eq
  have hyl := y.length_eq
  rw [StringPiece.startsWith]
  by_cases hlen : y.piece.length_ < x.piece.length_
  · obtain ⟨v, hcall, hsign⟩ := call_spec x y memcmp (Int.le_of_lt hlen) (Int.le_refl _)
      (Or.inr rfl)
    have hne : x.string ≠ y.string := fun heq => by
      rw [hxl, hyl, heq] at hlen
      exact Int.lt_irrefl _ hlen
    rw [if_pos hlen, hcall]
    refine ⟨_, rfl, ?_⟩
    rw [decide_eq_true_iff, hsign.zero_iff, firstDifference_eq_none_comm,
      firstDifference_eq_none_iff (by omega), and_iff_left hne]
  · rw [if_neg hlen]
    refine ⟨_, rfl, iff_of_false Bool.false_ne_true ?_⟩
    rintro ⟨hbegins, hne⟩
    exact hne (hbegins.eq_of_length_le (by omega)).symm

/-! ## An order, and its prefixes -/

/-- `compare` is a total order of the strings, and `==` is its equality. -/
structure Ordered : Prop where
  lexicographic : ∃ v, x.piece.compare memcmp y.piece = some v ∧
    SignOfOrder Below v x.string y.string
  antisymmetric : ∃ v w, x.piece.compare memcmp y.piece = some v ∧
    y.piece.compare memcmp x.piece = some w ∧ w.sign = -v.sign
  transitive : ∃ v w u, x.piece.compare memcmp y.piece = some v ∧
    y.piece.compare memcmp z.piece = some w ∧ x.piece.compare memcmp z.piece = some u ∧
      (v ≤ 0 → w ≤ 0 → u ≤ 0) ∧ (v < 0 → w < 0 → u < 0)
  equal : ∃ v, x.piece.compare memcmp y.piece = some v ∧
    x.piece.equal memcmp y.piece = some (decide (v = 0)) ∧
      x.piece.notEqual memcmp y.piece = some (decide (v ≠ 0))

/-- Besides, a string starts with another one if that one begins it. -/
structure RelationsAgree : Prop extends Ordered x y z memcmp where
  startsWith : ∃ b, x.piece.startsWith memcmp y.piece = some b ∧
    (b = true ↔ ∃ rest, x.string = y.string ++ rest)

theorem ordered : Ordered x y z memcmp := by
  obtain ⟨v, hv, hsignv⟩ := compare_spec x y memcmp
  obtain ⟨w, hw, hsignw⟩ := compare_spec y x memcmp
  obtain ⟨w', hw', hsignw'⟩ := compare_spec y z memcmp
  obtain ⟨u, hu, hsignu⟩ := compare_spec x z memcmp
  have hequal : x.piece.equal memcmp y.piece = some (decide (v = 0)) := by
    rw [equal_spec, decide_eq_decide.mpr hsignv.same]
  refine ⟨⟨v, hv, hsignv⟩, ⟨v, w, hv, hw, hsignv.sign_swap hsignw⟩,
    ⟨v, w', u, hv, hw', hu, hsignv.nonpos_trans hsignw' hsignu, hsignv.neg_trans hsignw' hsignu⟩,
    ⟨v, hv, hequal, ?_⟩⟩
  rw [StringPiece.notEqual, hequal, Option.map_some, ← decide_not]

/-- The order is right for all pieces, and `starts_with` for all pieces but equal ones. -/
theorem relationsAgree_iff :
    Ordered x y z memcmp ∧ (RelationsAgree x y z memcmp ↔ x.string ≠ y.string) := by
  refine ⟨ordered x y z memcmp, ?_⟩
  obtain ⟨b, hb, hiff⟩ := startsWith_spec x y memcmp
  constructor
  · rintro ⟨-, c, hc, hrest⟩ heq
    obtain rfl := Option.some.inj (hb.symm.trans hc)
    have htrue := hrest.mpr ⟨[], by rw [List.append_nil, heq]⟩
    exact (hiff.mp htrue).2 heq
  · intro hne
    refine ⟨ordered x y z memcmp, b, hb, ?_⟩
    rw [hiff, and_iff_left hne]
    constructor
    · rintro ⟨rest, hrest⟩
      exact ⟨rest, hrest.symm⟩
    · rintro ⟨rest, hrest⟩
      exact ⟨rest, hrest.symm⟩

def oneLetter : ByteString := ofString [97] (by decide)

/-- The piece `"a"` does not start with `"a"`. -/
theorem relationsAgree_fails :
    oneLetter.piece.startsWith .difference oneLetter.piece = some false ∧
      ¬ RelationsAgree oneLetter oneLetter oneLetter .difference := by
  refine ⟨rfl, ?_⟩
  intro h
  exact (relationsAgree_iff _ _ _ _).2.mp h rfl

end ByteString

end Cnet.Base
