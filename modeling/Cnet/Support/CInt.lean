import Mathlib.Data.Int.Basic

/-!
# The type `int` of C

A `CInt` is what an expression of type `int` evaluates to: a 32-bit integer, or nothing
where an intermediate value does not fit or a divisor is zero. Quotients are truncated.
-/

namespace Cnet.Support

/-- Two to the power 31, less one. -/
def intMax : Int := 2147483647

abbrev FitsInt (n : Int) : Prop := -2147483648 ≤ n ∧ n ≤ 2147483647

structure CInt where
  toInt? : Option Int
deriving DecidableEq

namespace CInt

def undefined : CInt := ⟨none⟩

def ofInt (n : Int) : CInt := ⟨if FitsInt n then some n else none⟩

def lift (op : Int → Int → CInt) (x y : CInt) : CInt :=
  match x.toInt?, y.toInt? with
  | some a, some b => op a b
  | _, _ => undefined

instance : Coe Int CInt := ⟨ofInt⟩
instance (n : Nat) : OfNat CInt n := ⟨ofInt n⟩
instance : Add CInt := ⟨lift fun a b => ofInt (a + b)⟩
instance : Sub CInt := ⟨lift fun a b => ofInt (a - b)⟩
instance : Mul CInt := ⟨lift fun a b => ofInt (a * b)⟩
instance : Div CInt := ⟨lift fun a b => if b = 0 then undefined else ofInt (a.tdiv b)⟩
instance : Mod CInt := ⟨lift fun a b => if b = 0 then undefined else ofInt (a.tmod b)⟩

variable {a b : Int}

theorem toInt?_ofInt (h : FitsInt a) : (ofInt a).toInt? = some a := if_pos h

theorem lift_ofInt {op : Int → Int → CInt} (ha : FitsInt a) (hb : FitsInt b) :
    lift op (ofInt a) (ofInt b) = op a b := by
  rw [lift, toInt?_ofInt ha, toInt?_ofInt hb]

theorem ofNat_eq (n : Nat) [n.AtLeastTwo] : (OfNat.ofNat n : CInt) = ofInt (OfNat.ofNat n) := rfl

theorem one_eq : (1 : CInt) = ofInt 1 := rfl

theorem add_ofInt (ha : FitsInt a) (hb : FitsInt b) : ofInt a + ofInt b = ofInt (a + b) :=
  lift_ofInt ha hb

theorem sub_ofInt (ha : FitsInt a) (hb : FitsInt b) : ofInt a - ofInt b = ofInt (a - b) :=
  lift_ofInt ha hb

theorem mul_ofInt (ha : FitsInt a) (hb : FitsInt b) : ofInt a * ofInt b = ofInt (a * b) :=
  lift_ofInt ha hb

/-- For a dividend that is not negative, truncation rounds down. -/
theorem div_ofInt (ha : FitsInt a) (hb : FitsInt b) (ha0 : 0 ≤ a) (hb0 : 0 < b) :
    ofInt a / ofInt b = ofInt (a / b) := by
  refine (lift_ofInt ha hb).trans ?_
  rw [if_neg (by omega), Int.tdiv_eq_ediv_of_nonneg ha0]

theorem mod_ofInt (ha : FitsInt a) (hb : FitsInt b) (ha0 : 0 ≤ a) (hb0 : 0 < b) :
    ofInt a % ofInt b = ofInt (a % b) := by
  refine (lift_ofInt ha hb).trans ?_
  rw [if_neg (by omega), Int.tmod_eq_emod_of_nonneg ha0]

end CInt

end Cnet.Support
