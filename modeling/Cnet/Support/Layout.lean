import Cnet.Support.CharArray
import Cnet.Support.Endian

/-!
# Records in memory

An array of characters, and the fields of a layout in it, which lie inside it. Several
layouts may be laid over one array.
-/

namespace Cnet.Support

/-- A field of `n` bytes in an array of `m`. -/
structure Field (m n : Nat) where
  offset : Nat
  le : offset + n ≤ m

def Field.Disjoint {m n k : Nat} (f : Field m n) (g : Field m k) : Prop :=
  f.offset + n ≤ g.offset ∨ g.offset + k ≤ f.offset

instance {m n k : Nat} (f : Field m n) (g : Field m k) : Decidable (f.Disjoint g) :=
  inferInstanceAs (Decidable (_ ∨ _))

/-- A number of `n` bytes as it lies in memory. -/
def Endian.block (e : Endian) (n v : Nat) : CharArray n := ⟨e.bytes n v, e.length_bytes n v⟩

namespace CharArray

variable {m n k : Nat}

theorem length_get (b : CharArray m) (f : Field m n) :
    (slice b.cells f.offset (f.offset + n)).length = n := by
  rw [length_slice (le_of_le_of_eq f.le b.length_cells.symm), Nat.add_sub_cancel_left]

def get (b : CharArray m) (f : Field m n) : CharArray n :=
  ⟨slice b.cells f.offset (f.offset + n), b.length_get f⟩

theorem put_le (b : CharArray m) (f : Field m n) (d : CharArray n) :
    f.offset + d.cells.length ≤ b.cells.length := by
  rw [d.length_cells, b.length_cells]
  exact f.le

def put (b : CharArray m) (f : Field m n) (d : CharArray n) : CharArray m :=
  ⟨overwrite b.cells f.offset d.cells, (length_overwrite (b.put_le f d)).trans b.length_cells⟩

theorem ext {b c : CharArray n} (h : b.cells = c.cells) : b = c := by
  cases b
  cases c
  cases h
  rfl

/-- A field reads as it was last written. -/
theorem get_put (b : CharArray m) (f : Field m n) (d : CharArray n) : (b.put f d).get f = d := by
  apply ext
  have h := slice_overwrite (b.put_le f d)
  rwa [d.length_cells] at h

/-- Writes to one field leave the others alone. -/
theorem get_put_of_disjoint (b : CharArray m) {f : Field m n} {g : Field m k} (d : CharArray n)
    (h : f.Disjoint g) : (b.put f d).get g = b.get g := by
  apply ext
  rcases h with hbefore | hafter
  · exact slice_overwrite_after (d.length_cells.symm ▸ hbefore) (b.put_le f d)
  · exact slice_overwrite_before hafter (b.put_le f d)

end CharArray

end Cnet.Support
