import Mathlib.Data.List.TakeWhile
import Cnet.Net.Inspect.ProcessInspector

/-!
# Lines of `/proc/PID/task/TID/stat`

All that is read of a line is found relative to the end of the name, and the name is
thought to end at the first closing parenthesis.
-/

namespace Cnet.Net.ProcessInspector

open Cnet.Base
open Cnet.Support (assert_pos overwrite overwrite_append_cons)

/-- A number in decimal, with a sign or without, of any width. -/
structure DecimalField where
  negative : Bool
  digits : List UInt8
  digits_ne : digits ≠ []
  isDigit : ∀ b ∈ digits, IsDigit b

def IsLong (v : Int) : Prop := longMin ≤ v ∧ v ≤ longMax

theorem clamp_eq_iff {v : Int} : max longMin (min longMax v) = v ↔ IsLong v := by
  have hbounds : longMin ≤ longMax := by decide
  rw [IsLong]
  omega

namespace DecimalField

def text (f : DecimalField) : List UInt8 :=
  if f.negative then charByte '-' :: f.digits else f.digits

def value (f : DecimalField) : Int :=
  if f.negative then -digitsValue f.digits else digitsValue f.digits

variable (f : DecimalField)

theorem notMem_text {c : UInt8} (hc : ¬ IsDigit c) (hminus : c ≠ charByte '-') : c ∉ f.text := by
  rw [text]
  split
  · exact List.not_mem_cons_of_ne_of_not_mem hminus fun hmem => hc (f.isDigit c hmem)
  · exact fun hmem => hc (f.isDigit c hmem)

/-- The conversion stops behind the number, and at the bounds of a `long`. -/
theorem strtol_append {rest : List UInt8} (h : ∀ b, rest.head? = some b → ¬ IsDigit b) :
    strtol (f.text ++ rest) = max longMin (min longMax f.value) := by
  have hself : (f.digits.takeWhile fun b => IsDigit b) = f.digits :=
    List.takeWhile_eq_self_iff.mpr fun b hb => decide_eq_true (f.isDigit b hb)
  have htake := (takeWhile_isDigit_append h f.digits).trans hself
  obtain ⟨d, ds, hdigits⟩ := List.exists_cons_of_ne_nil f.digits_ne
  have hd : IsDigit d := f.isDigit d (hdigits ▸ List.mem_cons_self)
  rw [text, value]
  by_cases hneg : f.negative = true
  · have hspace : isSpace (charByte '-') = false := by decide
    rw [if_pos hneg, if_pos hneg, strtol, List.cons_append,
      List.dropWhile_cons_of_neg (Bool.not_eq_true _ ▸ hspace)]
    simp only [List.head?_cons, decide_true, Bool.true_or, if_true, List.tail_cons, htake]
  · have hminus : d ≠ charByte '-' := by
      rintro rfl
      exact absurd hd.1 (by decide)
    have hplus : d ≠ charByte '+' := by
      rintro rfl
      exact absurd hd.1 (by decide)
    rw [hdigits] at htake
    rw [if_neg hneg, if_neg hneg, hdigits, strtol, List.cons_append,
      List.dropWhile_cons_of_neg (Bool.not_eq_true _ ▸ isSpace_of_isDigit hd), ← List.cons_append]
    simp only [List.cons_append, List.head?_cons, Option.some.injEq, hminus, hplus, decide_false,
      Bool.false_or, Bool.false_eq_true, if_false]
    rw [← List.cons_append, htake]

end DecimalField

/-- Numbers with a blank between any two, and what comes after the last one. -/
def fieldsText (fields : List DecimalField) (ending : List UInt8) : List UInt8 :=
  (chars " ").intercalate (fields.map DecimalField.text) ++ ending

theorem fieldsText_cons_cons (f g : DecimalField) (fields : List DecimalField)
    (ending : List UInt8) : fieldsText (f :: g :: fields) ending =
      f.text ++ charByte ' ' :: fieldsText (g :: fields) ending := by
  rw [fieldsText, List.map_cons, List.map_cons, List.intercalate_cons_cons, List.append_assoc,
    List.append_assoc]
  rfl

section
variable {ending : List UInt8} (hends : ∀ b, ending.head? = some b → ¬ IsDigit b)

include hends in
theorem strtol_fieldsText (f : DecimalField) (fields : List DecimalField) :
    strtol (fieldsText (f :: fields) ending) = max longMin (min longMax f.value) := by
  cases fields with
  | nil =>
    have htext : fieldsText [f] ending = f.text ++ ending := by
      rw [fieldsText, List.map_singleton, List.intercalate_singleton]
    rw [htext]
    exact f.strtol_append hends
  | cons g fields =>
    rw [fieldsText_cons_cons]
    apply f.strtol_append
    intro b hb
    obtain rfl := Option.some.inj hb
    decide

theorem next_fieldsText {f g : DecimalField} {fields : List DecimalField}
    (hlen : (fieldsText (f :: g :: fields) ending).length < 2147483648) :
    next (.ofString (fieldsText (f :: g :: fields) ending)) =
      some (.ofString (fieldsText (g :: fields) ending)) := by
  rw [fieldsText_cons_cons] at hlen ⊢
  exact next_ofString (f.notMem_text (by decide) (by decide)) hlen

/-- The loop of `getCpuTime` drops a field each time. -/
theorem skip_fieldsText {n : Nat} {fields : List DecimalField} (hn : n < fields.length)
    (hlen : (fieldsText fields ending).length < 2147483648) :
    skip n (.ofString (fieldsText fields ending)) =
        some (.ofString (fieldsText (fields.drop n) ending)) ∧
      (fieldsText (fields.drop n) ending).length < 2147483648 := by
  induction n generalizing fields with
  | zero => exact ⟨rfl, hlen⟩
  | succ n ih =>
    cases fields with
    | nil => exact absurd hn (Nat.not_lt_zero _)
    | cons f fields =>
      cases fields with
      | nil => exact absurd (Nat.lt_of_succ_lt_succ hn) (Nat.not_lt_zero _)
      | cons g fields =>
        have hrest : (fieldsText (g :: fields) ending).length < 2147483648 := by
          rw [fieldsText_cons_cons, List.length_append, List.length_cons] at hlen
          omega
        rw [skip, next_fieldsText hlen, Option.bind_eq_bind, Option.bind_some, List.drop_succ_cons]
        exact ih (Nat.lt_of_succ_lt_succ hn) hrest

end

/-- Up to the first `c` after which `rest` comes, or another one before it. -/
theorem exists_split (c : UInt8) (name rest : List UInt8) :
    ∃ rest', name ++ c :: rest = name.takeWhile (· ≠ c) ++ c :: rest' := by
  induction name with
  | nil => exact ⟨rest, rfl⟩
  | cons b name ih =>
    by_cases hb : b = c
    · have hstop : ¬ decide (b ≠ c) = true := decide_eq_true_iff.not.mpr (not_not.mpr hb)
      refine ⟨name ++ c :: rest, ?_⟩
      rw [List.takeWhile_cons_of_neg (p := fun x => decide (x ≠ c)) hstop, hb]
      rfl
    · have hpass : decide (b ≠ c) = true := decide_eq_true hb
      obtain ⟨rest', hrest⟩ := ih
      refine ⟨rest', ?_⟩
      rw [List.takeWhile_cons_of_pos (p := fun x => decide (x ≠ c)) hpass, List.cons_append, hrest,
        List.cons_append]

theorem takeWhile_append_cons (c : UInt8) (name rest : List UInt8) :
    (name ++ c :: rest).takeWhile (· ≠ c) = name.takeWhile (· ≠ c) := by
  have hstop : (c :: rest).takeWhile (fun b => decide (b ≠ c)) = [] :=
    List.takeWhile_cons_of_neg (p := fun b => decide (b ≠ c))
      (decide_eq_true_iff.not.mpr (not_not.mpr rfl))
  rw [List.takeWhile_append, hstop, List.append_nil]
  split
  · next hall => exact ((List.takeWhile_prefix _).eq_of_length hall).symm
  · rfl

section
variable (before name after : List UInt8)

/-- A line up to the name. -/
theorem line_begin : before ++ charByte '(' :: (name ++ charByte ')' :: after) =
    (before ++ [charByte '(']) ++ (name ++ charByte ')' :: after) := by
  rw [List.append_assoc, List.singleton_append]

/-- The same line up to the end of the name. -/
theorem line_end : before ++ charByte '(' :: (name ++ charByte ')' :: after) =
    (before ++ charByte '(' :: name) ++ charByte ')' :: after := by
  rw [List.append_assoc, List.cons_append]

theorem length_line_begin : (before ++ charByte '(' :: (name ++ charByte ')' :: after)).length -
    (name ++ charByte ')' :: after).length = (before ++ [charByte '(']).length := by
  rw [line_begin, List.length_append, Nat.add_sub_cancel]

theorem length_line_end : (before ++ charByte '(' :: (name ++ charByte ')' :: after)).length -
    (charByte ')' :: after).length = (before ++ charByte '(' :: name).length := by
  rw [line_end, List.length_append, Nat.add_sub_cancel]

/-- The closing parenthesis is overwritten, so that the name ends there. -/
theorem overwrite_line_end : overwrite (before ++ charByte '(' :: (name ++ charByte ')' :: after))
    (before ++ charByte '(' :: name).length [0] =
    (before ++ charByte '(' :: name) ++ 0 :: after := by
  rw [line_end, overwrite_append_cons]

theorem takeWhile_line_begin : (((before ++ charByte '(' :: name) ++ 0 :: after).drop
    (before ++ [charByte '(']).length).takeWhile (· ≠ 0) = name.takeWhile (· ≠ 0) := by
  have hzero : (before ++ charByte '(' :: name) ++ 0 :: after =
      (before ++ [charByte '(']) ++ (name ++ 0 :: after) := by
    rw [List.append_assoc, List.append_assoc, List.singleton_append, List.cons_append]
  rw [hzero, List.drop_left, takeWhile_append_cons]

end

section
variable (head rest : List UInt8) (state : UInt8)

/-- The state is two characters behind the end of the name. -/
theorem getElem_state :
    (head ++ 0 :: charByte ' ' :: state :: charByte ' ' :: rest)[head.length + 2]? =
      some state := by
  rw [List.getElem?_append_right (Nat.le_add_right _ _), Nat.add_sub_cancel_left]
  rfl

/-- The first field is four characters behind it. -/
theorem removePrefix_state
    (hfits : (head ++ 0 :: charByte ' ' :: state :: charByte ' ' :: rest).length < 2147483648) :
    StringPiece.removePrefix (castInt (head.length + 2 + 2 : Nat))
      (.ofString (head ++ 0 :: charByte ' ' :: state :: charByte ' ' :: rest)) =
        some (.ofString rest) := by
  have hdata : head ++ 0 :: charByte ' ' :: state :: charByte ' ' :: rest =
      (head ++ [0, charByte ' ', state, charByte ' ']) ++ rest := by
    rw [List.append_assoc head]
    rfl
  have hcount : (head ++ [0, charByte ' ', state, charByte ' ']).length = head.length + 2 + 2 :=
    List.length_append
  rw [hdata] at hfits ⊢
  rw [← hcount]
  exact StringPiece.removePrefix_ofString hfits

end

/-- The state and the times of a name without closing parentheses. -/
theorem thread_eq {before name rest : List UInt8} {state : UInt8}
    (hopen : charByte '(' ∉ before) (hclose : charByte ')' ∉ before)
    (hname : charByte ')' ∉ name)
    (hlen : (before ++ charByte '(' :: (name ++ charByte ')' :: charByte ' ' :: state ::
      charByte ' ' :: rest)).length < 2147483648) :
    thread (before ++ charByte '(' :: (name ++ charByte ')' :: charByte ' ' :: state ::
        charByte ' ' :: rest)) =
      (getCpuTime (.ofString rest)).map fun t => ⟨name.takeWhile (· ≠ 0), state, t⟩ := by
  have hsize := hlen
  rw [line_end, List.length_append, List.length_cons] at hsize
  have hname_lt : name.length < 2147483648 := by
    rw [List.length_append, List.length_cons] at hsize
    omega
  have hfits : ((before ++ charByte '(' :: name) ++ 0 :: charByte ' ' :: state ::
      charByte ' ' :: rest).length < 2147483648 := by
    rwa [List.length_append, List.length_cons]
  have hproc := ProcessInfo.procname_eq (charByte ' ' :: state :: charByte ' ' :: rest) hopen
    hclose hname hname_lt
  have hend : (StringPiece.mk (name ++ charByte ')' :: charByte ' ' :: state :: charByte ' ' ::
      rest) name.length).end_ = charByte ')' :: charByte ' ' :: state :: charByte ' ' :: rest := by
    rw [StringPiece.end_, Int.toNat_natCast, List.drop_left]
  have hparen : (charByte ')' :: charByte ' ' :: state :: charByte ' ' :: rest).head? =
      some (charByte ')') := List.head?_cons
  rw [thread, hproc]
  dsimp only
  rw [hend, assert_pos hparen, Option.bind_eq_bind, Option.bind_some, length_line_begin,
    length_line_end, overwrite_line_end, removePrefix_state _ _ _ hfits,
    Option.bind_eq_bind, Option.bind_some, getElem_state]
  cases getCpuTime (StringPiece.ofString rest) with
  | none => rfl
  | some t =>
    rw [Option.bind_eq_bind, Option.bind_some, Option.bind_eq_bind, Option.bind_some,
      takeWhile_line_begin]
    rfl

def lineText (pid : DecimalField) (comm : List UInt8) (state : UInt8) (fields : List DecimalField)
    (ending : List UInt8) : List UInt8 :=
  pid.text ++ chars " (" ++ comm ++ chars ") " ++ [state] ++ chars " " ++ fieldsText fields ending

/-- `PID (COMM) STATE f1 f2 …` with anything behind it that does not go on with a digit, no
longer than an `int` counts. -/
structure StatLine where
  pid : DecimalField
  comm : List UInt8
  state : UInt8
  fields : List DecimalField
  ending : List UInt8
  comm_ne : comm ≠ []
  length_comm : comm.length ≤ 15
  comm_line : charByte '\n' ∉ comm
  count : 12 ≤ fields.length
  ends : ∀ b, ending.head? = some b → ¬ IsDigit b
  fits : (lineText pid comm state fields ending).length < 2147483648

namespace StatLine

variable (l : StatLine)

def text : List UInt8 := lineText l.pid l.comm l.state l.fields l.ending

theorem user_lt : 10 < l.fields.length := Nat.lt_of_lt_of_le (by decide) l.count

theorem system_lt : 11 < l.fields.length := Nat.lt_of_lt_of_le (by decide) l.count

/-- The eleventh field. -/
def user : Int := (l.fields.get ⟨10, l.user_lt⟩).value

/-- The twelfth field. -/
def system : Int := (l.fields.get ⟨11, l.system_lt⟩).value

/-- The line up to the name, the name, and what follows the name. -/
theorem text_eq : l.text = (l.pid.text ++ chars " ") ++ charByte '(' :: (l.comm ++ charByte ')' ::
    (charByte ' ' :: l.state :: charByte ' ' :: fieldsText l.fields l.ending)) := by
  rw [text, lineText]
  simp only [List.append_assoc]
  rfl

theorem notMem_before {c : UInt8} (hc : ¬ IsDigit c) (hminus : c ≠ charByte '-')
    (hblank : c ∉ chars " ") : c ∉ l.pid.text ++ chars " " := fun hmem =>
  (List.mem_append.mp hmem).elim (l.pid.notMem_text hc hminus) hblank

/-- What is read for the name. -/
def shown : List UInt8 := l.comm.takeWhile (· ≠ charByte ')')

theorem notMem_shown : charByte ')' ∉ l.shown := by
  intro hmem
  have hne := List.mem_takeWhile_imp (p := (· ≠ charByte ')')) hmem
  exact of_decide_eq_true hne rfl

theorem shown_eq_iff : l.shown = l.comm ↔ charByte ')' ∉ l.comm := by
  constructor
  · intro h
    exact h ▸ l.notMem_shown
  · intro h
    apply List.takeWhile_eq_self_iff.mpr
    intro b hb
    exact decide_eq_true fun heq => h (heq ▸ hb)

theorem length_shown_le : l.shown.length ≤ 15 :=
  Nat.le_trans (List.takeWhile_prefix _).length_le l.length_comm

theorem procname_text : ∃ rest, ProcessInfo.procname l.text =
    ⟨l.shown ++ charByte ')' :: rest, l.shown.length⟩ := by
  obtain ⟨rest, hrest⟩ := exists_split (charByte ')') l.comm
    (charByte ' ' :: l.state :: charByte ' ' :: fieldsText l.fields l.ending)
  refine ⟨rest, ?_⟩
  rw [l.text_eq, hrest]
  exact ProcessInfo.procname_eq rest (l.notMem_before (by decide) (by decide) (by decide))
    (l.notMem_before (by decide) (by decide) (by decide)) l.notMem_shown
      (Nat.lt_of_le_of_lt l.length_shown_le (by decide))

/-- `procname` returns the name up to its first closing parenthesis. -/
theorem bytes_procname : (ProcessInfo.procname l.text).bytes = some l.shown := by
  obtain ⟨rest, hname⟩ := l.procname_text
  have hsize : castSize l.shown.length = l.shown.length :=
    castSize_natCast (Nat.lt_of_le_of_lt l.length_shown_le (by decide))
  rw [hname, StringPiece.bytes_eq, StringPiece.size, StringPiece.data, hsize,
    if_pos (by rw [List.length_append]; omega), List.take_left]

/-- The times are those of the eleventh and the twelfth field, as far as a `long` goes. -/
theorem getCpuTime_fields (hlen : (fieldsText l.fields l.ending).length < 2147483648) :
    getCpuTime (.ofString (fieldsText l.fields l.ending)) =
      some ⟨max longMin (min longMax l.user), max longMin (min longMax l.system)⟩ := by
  have hdrop : l.fields.drop 10 =
      l.fields.get ⟨10, l.user_lt⟩ :: l.fields.get ⟨11, l.system_lt⟩ :: l.fields.drop 12 := by
    rw [List.drop_eq_getElem_cons l.user_lt, List.drop_eq_getElem_cons l.system_lt]
    rfl
  obtain ⟨hskip, hshort⟩ := skip_fieldsText l.user_lt hlen
  rw [hdrop] at hskip hshort
  rw [getCpuTime, hskip, Option.bind_eq_bind, Option.bind_some, next_fieldsText hshort]
  dsimp only [Option.bind_some]
  rw [StringPiece.data_ofString, StringPiece.data_ofString, strtol_fieldsText l.ends,
    strtol_fieldsText l.ends]
  rfl

theorem thread_text (h : charByte ')' ∉ l.comm) : thread l.text =
    some ⟨l.comm.takeWhile (· ≠ 0), l.state,
      ⟨max longMin (min longMax l.user), max longMin (min longMax l.system)⟩⟩ := by
  have hlen : l.text.length < 2147483648 := l.fits
  have hrest : (fieldsText l.fields l.ending).length < 2147483648 := by
    rw [text, lineText, List.length_append] at hlen
    omega
  rw [l.text_eq] at hlen ⊢
  rw [thread_eq (l.notMem_before (by decide) (by decide) (by decide))
    (l.notMem_before (by decide) (by decide) (by decide)) h hlen, l.getCpuTime_fields hrest]
  rfl

/-- `procname` and the list of threads get from the line what it says. -/
def Extracted : Prop :=
  (ProcessInfo.procname l.text).bytes = some l.comm ∧
    ∃ t, thread l.text = some t ∧ t.state = l.state ∧ t.cpuTime = ⟨l.user, l.system⟩

theorem extracted_iff :
    l.Extracted ↔ charByte ')' ∉ l.comm ∧ IsLong l.user ∧ IsLong l.system := by
  constructor
  · rintro ⟨hname, t, ht, -, htime⟩
    have hcomm := l.shown_eq_iff.mp (Option.some.inj (l.bytes_procname.symm.trans hname))
    obtain rfl := Option.some.inj ((l.thread_text hcomm).symm.trans ht)
    obtain ⟨huser, hsystem⟩ := CpuTime.mk.inj htime
    exact ⟨hcomm, clamp_eq_iff.mp huser, clamp_eq_iff.mp hsystem⟩
  · rintro ⟨hcomm, huser, hsystem⟩
    refine ⟨l.bytes_procname.trans (congrArg some (l.shown_eq_iff.mpr hcomm)), _,
      l.thread_text hcomm, rfl, ?_⟩
    rw [clamp_eq_iff.mpr huser, clamp_eq_iff.mpr hsystem]

def nought : DecimalField where
  negative := false
  digits := [48]
  digits_ne := List.cons_ne_nil _ _
  isDigit := List.forall_mem_singleton.mpr (by decide)

/-- A process with the name `a)b`. -/
def parenthesised : StatLine where
  pid := nought
  comm := chars "a)b"
  state := charByte 'S'
  fields := List.replicate 12 nought
  ending := []
  comm_ne := List.cons_ne_nil _ _
  length_comm := by decide
  comm_line := by decide
  count := by decide
  ends := nofun
  fits := by decide

/-- Its name is read as `a`. -/
theorem extracted_fails :
    (ProcessInfo.procname parenthesised.text).bytes = some (chars "a") ∧
      ¬ parenthesised.Extracted := by
  have hname : (ProcessInfo.procname parenthesised.text).bytes = some (chars "a") :=
    parenthesised.bytes_procname
  refine ⟨hname, fun h => ?_⟩
  exact absurd (Option.some.inj (hname.symm.trans h.1)) (by decide)

end StatLine

end Cnet.Net.ProcessInspector
