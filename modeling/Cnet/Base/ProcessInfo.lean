import Cnet.Base.Format
import Cnet.Base.StringPiece

/-!
# The name of a process

The name in a line of `/proc` is looked for between the first opening and the first closing
parenthesis, and a name may contain both.
-/

namespace Cnet.Base.ProcessInfo

/-- `procname(const string&)`; a null pointer is one from which nothing can be read. -/
def procname (stat : List UInt8) : StringPiece :=
  match stat.idxOf? (charByte '('), stat.idxOf? (charByte ')') with
  | some lp, some rp =>
    if lp < rp then ⟨stat.drop (lp + 1), castInt (rp - lp - 1 : Nat)⟩ else ⟨[], 0⟩
  | _, _ => ⟨[], 0⟩

theorem idxOf?_append_cons {c : UInt8} {before : List UInt8} (h : c ∉ before)
    (rest : List UInt8) : (before ++ c :: rest).idxOf? c = some before.length := by
  induction before with
  | nil =>
    rw [List.nil_append, List.idxOf?_cons, if_pos (beq_self_eq_true c)]
    rfl
  | cons b before ih =>
    obtain ⟨hb, hbefore⟩ := not_or.mp (List.mem_cons.not.mp h)
    rw [List.cons_append, List.idxOf?_cons, if_neg (beq_iff_eq.not.mpr (Ne.symm hb)), ih hbefore]
    rfl

/-- What is found begins behind the first opening parenthesis and ends before the first
closing one. -/
theorem procname_eq {before name : List UInt8} (rest : List UInt8)
    (hopen : charByte '(' ∉ before) (hclose : charByte ')' ∉ before)
    (hname : charByte ')' ∉ name) (hlen : name.length < 2147483648) :
    procname (before ++ charByte '(' :: (name ++ charByte ')' :: rest)) =
      ⟨name ++ charByte ')' :: rest, name.length⟩ := by
  have hlp := idxOf?_append_cons hopen (name ++ charByte ')' :: rest)
  have hsecond : charByte ')' ∉ before ++ charByte '(' :: name := by
    rw [List.mem_append, List.mem_cons]
    rintro (hmem | heq | hmem)
    · exact hclose hmem
    · exact absurd heq (by decide)
    · exact hname hmem
  have hrp := idxOf?_append_cons hsecond rest
  rw [List.append_assoc, List.cons_append, List.length_append, List.length_cons] at hrp
  have hdrop : (before ++ charByte '(' :: (name ++ charByte ')' :: rest)).drop (before.length + 1) =
      name ++ charByte ')' :: rest := by
    rw [← List.drop_drop, List.drop_left]
    rfl
  have hsize : before.length + (name.length + 1) - before.length - 1 = name.length := by omega
  rw [procname, hlp, hrp]
  dsimp only
  rw [if_pos (by omega), hdrop, hsize, castInt_eq ⟨by omega, by omega⟩]

end Cnet.Base.ProcessInfo
