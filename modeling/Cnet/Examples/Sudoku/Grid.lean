import Mathlib.Data.Fintype.EquivFin
import Cnet.Examples.Sudoku.MatrixOfBoard

/-!
# Grids and covers

A grid solves a board exactly if the values of the empty cells cover the columns of the matrix.
A row, a column or a box of nine cells has each value once if it has each value at all; so
what is covered once need not be checked for being there twice.
-/

namespace Cnet.Examples.Sudoku

open Cnet.Support SudokuSolver

/-- Nine cells that have different values. -/
inductive House
  | row
  | col
  | box
deriving DecidableEq

namespace House

/-- The house that a cell is in. -/
def of : House → Nat → Nat
  | row => rowOf
  | col => colOf
  | box => boxOf

/-- The name of the column for a value in a house. -/
def name : House → Nat → Nat → Nat
  | row => getRowCol
  | col => getColCol
  | box => getBoxCol

def seen : House → Seen → Nat → Int → Bool
  | row => Seen.rows
  | col => Seen.cols
  | box => Seen.boxes

/-- The cells of a house. -/
def cellAt : House → Nat → Nat → Nat
  | row, i, k => 9 * i + k
  | col, i, k => 9 * k + i
  | box, i, k => 9 * (i / 3 * 3 + k / 3) + (i % 3 * 3 + k % 3)

variable {h h' : House} {i i' k v v' c : Nat} {board : Nat → Int}

theorem of_lt (h : House) (hc : c < kCells) : h.of c < 9 := by
  rw [kCells] at hc
  cases h with
  | row => exact Nat.div_lt_of_lt_mul hc
  | col => exact Nat.mod_lt c (by decide)
  | box =>
    show c / 9 / 3 * 3 + c % 9 / 3 < 9
    omega

theorem cellAt_lt (h : House) (hi : i < 9) (hk : k < 9) : h.cellAt i k < kCells := by
  rw [kCells]
  cases h with
  | row =>
    show 9 * i + k < 81
    omega
  | col =>
    show 9 * k + i < 81
    omega
  | box =>
    show 9 * (i / 3 * 3 + k / 3) + (i % 3 * 3 + k % 3) < 81
    omega

theorem of_cellAt (h : House) (hi : i < 9) (hk : k < 9) : h.of (h.cellAt i k) = i := by
  cases h with
  | row =>
    show (9 * i + k) / 9 = i
    omega
  | col =>
    show (9 * k + i) % 9 = i
    omega
  | box =>
    show (9 * (i / 3 * 3 + k / 3) + (i % 3 * 3 + k % 3)) / 9 / 3 * 3
      + (9 * (i / 3 * 3 + k / 3) + (i % 3 * 3 + k % 3)) % 9 / 3 = i
    omega

theorem cellAt_inj (h : House) {l : Nat} (heq : h.cellAt i k = h.cellAt i l) : k = l := by
  cases h <;> simp only [cellAt] at heq <;> omega

theorem exists_cellAt (h : House) (hc : c < kCells) (hi : h.of c = i) :
    ∃ k < 9, h.cellAt i k = c := by
  rw [kCells] at hc
  subst hi
  cases h with
  | row => exact ⟨c % 9, Nat.mod_lt c (by decide), Nat.div_add_mod c 9⟩
  | col => exact ⟨c / 9, Nat.div_lt_of_lt_mul hc, Nat.div_add_mod c 9⟩
  | box =>
    refine ⟨c / 9 % 3 * 3 + c % 9 % 3, by omega, ?_⟩
    show 9 * ((c / 9 / 3 * 3 + c % 9 / 3) / 3 * 3 + (c / 9 % 3 * 3 + c % 9 % 3) / 3)
      + ((c / 9 / 3 * 3 + c % 9 / 3) % 3 * 3 + (c / 9 % 3 * 3 + c % 9 % 3) % 3) = c
    omega

theorem le_name (h : House) (i v : Nat) : 100 ≤ h.name i v := by
  cases h with
  | row => exact Nat.le_add_right_of_le (Nat.le_add_right 100 _)
  | col => exact Nat.le_add_right_of_le (Nat.le_add_right_of_le (by decide))
  | box => exact Nat.le_add_right_of_le (Nat.le_add_right_of_le (by decide))

/-- A name tells the house and the value. -/
theorem name_inj (hi : i < 9) (hi' : i' < 9) (hv : v < 10) (hv' : v' < 10)
    (heq : h.name i v = h'.name i' v') : h = h' ∧ i = i' ∧ v = v' := by
  cases h <;> cases h' <;>
    simp only [name, getRowCol, getColCol, getBoxCol, kRow, kCol, kBox, reduceCtorEq, true_and,
      false_and] at heq ⊢ <;> omega

/-! ## What has been seen -/

theorem mark_iff {a : Nat → Int → Bool} {j : Nat} {val w : Int} :
    mark a j val i w = true ↔ (j = i ∧ val = w) ∨ a i w = true := by
  rw [mark]
  by_cases hi : i = j
  · subst hi
    rw [Function.update_self]
    by_cases hw : w = val
    · subst hw
      rw [Function.update_self]
      exact iff_of_true rfl (.inl ⟨rfl, rfl⟩)
    · rw [Function.update_of_ne hw]
      exact (or_iff_right fun heq => hw heq.2.symm).symm
  · rw [Function.update_of_ne hi]
    exact (or_iff_right fun heq => hi heq.1.symm).symm

theorem seen_cell (h : House) (s : Seen) (c : Nat) :
    h.seen (s.cell board c) = mark (h.seen s) (h.of c) (board c) := by
  cases h with
  | row => rfl
  | col => rfl
  | box => rfl

/-- A value has been seen in a house if a cell of the board has it. -/
theorem seen_iff {w : Int} : h.seen (SudokuSolver.seen board) i w = true ↔
    ∃ c < kCells, h.of c = i ∧ board c = w := by
  have hfold : ∀ (l : List Nat) (s : Seen), h.seen (l.foldl (Seen.cell board) s) i w = true ↔
      (∃ c ∈ l, h.of c = i ∧ board c = w) ∨ h.seen s i w = true := by
    intro l
    induction l with
    | nil => exact fun s => (or_iff_right fun ⟨c, hc, _⟩ => List.not_mem_nil hc).symm
    | cons c l ih =>
      intro s
      rw [List.foldl_cons, ih, seen_cell, mark_iff, List.exists_mem_cons_iff, ← or_assoc,
        or_comm (a := ∃ c ∈ l, _)]
  have hstart : h.seen ⟨fun _ _ => false, fun _ _ => false, fun _ _ => false⟩ i w = false := by
    cases h with
    | row => rfl
    | col => rfl
    | box => rfl
  rw [SudokuSolver.seen, hfold, hstart, or_iff_left Bool.false_ne_true]
  exact exists_congr fun c => and_congr_left' List.mem_range

/-- All that is marked is inside `bool[81][10]`. -/
theorem seen_inside {w : Int} (hboard : ∀ c < kCells, 0 ≤ board c ∧ board c ≤ 9)
    (hseen : h.seen (SudokuSolver.seen board) i w = true) : i < kCells ∧ 0 ≤ w ∧ w < 10 := by
  obtain ⟨c, hc, rfl, rfl⟩ := seen_iff.mp hseen
  obtain ⟨hnonneg, hle⟩ := hboard c hc
  have hnine := h.of_lt hc
  exact ⟨Nat.lt_trans hnine (by decide), hnonneg, Int.lt_add_one_of_le hle⟩

end House

/-! ## Columns and choices -/

variable {board : Nat → Int} {c n v : Nat} {p : Nat × Nat}

theorem mem_rowNames : n ∈ rowNames (c, v) ↔ n = c ∨ ∃ h : House, n = h.name (h.of c) v := by
  simp only [rowNames, List.mem_cons, List.not_mem_nil, or_false]
  refine or_congr_right ⟨?_, ?_⟩
  · rintro (rfl | rfl | rfl)
    · exact ⟨.row, rfl⟩
    · exact ⟨.col, rfl⟩
    · exact ⟨.box, rfl⟩
  · rintro ⟨h, rfl⟩
    cases h with
    | row => exact .inl rfl
    | col => exact .inr (.inl rfl)
    | box => exact .inr (.inr rfl)

theorem mem_unlessSeen {b : Bool} {m : Nat} : n ∈ unlessSeen b m ↔ b = false ∧ n = m := by
  cases b with
  | true => exact iff_of_false List.not_mem_nil fun h => Bool.noConfusion h.1
  | false => exact List.mem_singleton.trans (and_iff_right rfl).symm

theorem mem_valueNames {seen : Seen} {i : Nat} :
    n ∈ valueNames seen i v ↔ ∃ h : House, h.seen seen i v = false ∧ n = h.name i v := by
  rw [valueNames, List.mem_append, List.mem_append, mem_unlessSeen, mem_unlessSeen, mem_unlessSeen]
  refine ⟨?_, ?_⟩
  · rintro ((h | h) | h)
    · exact ⟨.row, h⟩
    · exact ⟨.col, h⟩
    · exact ⟨.box, h⟩
  · rintro ⟨h, hh⟩
    cases h with
    | row => exact .inl (.inl hh)
    | col => exact .inl (.inr hh)
    | box => exact .inr hh

theorem mem_cellNames : n ∈ cellNames board c ↔ board c = 0 ∧ n = c := by
  rw [cellNames]
  split
  · next hzero => exact List.mem_singleton.trans (and_iff_right hzero).symm
  · next hzero => exact iff_of_false List.not_mem_nil fun h => hzero h.1

theorem mem_values : v ∈ List.range' 1 9 ↔ 0 < v ∧ v < 10 := List.mem_range'_1

/-- There is a column for each empty cell, and for each value that a house lacks. -/
theorem mem_columnNames : n ∈ columnNames board ↔ (n < kCells ∧ board n = 0) ∨
    ∃ (h : House) (i v : Nat), i < 9 ∧ (0 < v ∧ v < 10) ∧ h.seen (seen board) i v = false ∧
      n = h.name i v := by
  rw [columnNames, List.mem_append, List.mem_flatMap, List.mem_flatMap]
  refine or_congr ⟨?_, ?_⟩ ⟨?_, ?_⟩
  · rintro ⟨c, hc, hn⟩
    obtain ⟨hzero, rfl⟩ := mem_cellNames.mp hn
    exact ⟨List.mem_range.mp hc, hzero⟩
  · exact fun ⟨hn, hzero⟩ => ⟨n, List.mem_range.mpr hn, mem_cellNames.mpr ⟨hzero, rfl⟩⟩
  · rintro ⟨i, hi, hn⟩
    obtain ⟨v, hv, hn⟩ := List.mem_flatMap.mp hn
    obtain ⟨h, hseen, rfl⟩ := mem_valueNames.mp hn
    exact ⟨h, i, v, List.mem_range.mp hi, mem_values.mp hv, hseen, rfl⟩
  · rintro ⟨h, i, v, hi, hv, hseen, hn⟩
    refine ⟨i, List.mem_range.mpr hi, List.mem_flatMap.mpr ⟨v, mem_values.mpr hv, ?_⟩⟩
    exact mem_valueNames.mpr ⟨h, hseen, hn⟩

theorem candidate_iff {seen : Seen} :
    candidate seen c v = true ↔ ∀ h : House, h.seen seen (h.of c) v = false := by
  rw [candidate, Bool.not_eq_true', Bool.or_eq_false_iff, Bool.or_eq_false_iff]
  refine ⟨fun ⟨⟨hrow, hcol⟩, hbox⟩ h => ?_, fun hall => ⟨⟨hall .row, hall .col⟩, hall .box⟩⟩
  cases h with
  | row => exact hrow
  | col => exact hcol
  | box => exact hbox

/-- A choice is a value for an empty cell, which the houses of the cell lack. -/
theorem mem_choices : (c, v) ∈ choices board ↔ c < kCells ∧ board c = 0 ∧ (0 < v ∧ v < 10) ∧
    ∀ h : House, h.seen (seen board) (h.of c) v = false := by
  rw [choices, List.mem_flatMap]
  refine ⟨?_, ?_⟩
  · rintro ⟨i, hi, hp⟩
    rw [cellChoices] at hp
    split at hp
    · next hzero =>
      obtain ⟨w, hw, hp⟩ := List.mem_flatMap.mp hp
      split at hp
      · next hcandidate =>
        obtain ⟨rfl, rfl⟩ := Prod.mk.inj (List.mem_singleton.mp hp)
        exact ⟨List.mem_range.mp hi, hzero, mem_values.mp hw, candidate_iff.mp hcandidate⟩
      · exact absurd hp List.not_mem_nil
    · exact absurd hp List.not_mem_nil
  · rintro ⟨hc, hzero, hv, hall⟩
    refine ⟨c, List.mem_range.mpr hc, ?_⟩
    rw [cellChoices, if_pos hzero]
    refine List.mem_flatMap.mpr ⟨v, mem_values.mpr hv, ?_⟩
    rw [if_pos (candidate_iff.mpr hall)]
    exact List.mem_singleton_self _

/-! ## The constructor goes well -/

theorem isChoice_of_mem (hp : p ∈ choices board) : IsChoice p := by
  obtain ⟨hc, -, hv, -⟩ := mem_choices.mp hp
  exact ⟨hc, hv⟩

theorem unlessSeen_sublist (b : Bool) (n : Nat) : (unlessSeen b n).Sublist [n] := by
  cases b with
  | true => exact List.nil_sublist _
  | false => exact List.Sublist.refl _

theorem valueNames_sublist (seen : Seen) (i v : Nat) :
    (valueNames seen i v).Sublist [getRowCol i v, getColCol i v, getBoxCol i v] :=
  ((unlessSeen_sublist _ _).append (unlessSeen_sublist _ _)).append (unlessSeen_sublist _ _)

theorem valueNames_nodup (seen : Seen) (i v : Nat) : (valueNames seen i v).Nodup := by
  refine List.Nodup.sublist (valueNames_sublist seen i v) ?_
  simp only [getRowCol, getColCol, getBoxCol, kRow, kCol, kBox, List.nodup_cons, List.mem_cons,
    List.not_mem_nil, or_false, not_or, not_false_eq_true, List.nodup_nil, and_true]
  omega

theorem columnNames_nodup (board : Nat → Int) : (columnNames board).Nodup := by
  refine List.nodup_append.mpr ⟨?_, ?_, ?_⟩
  · refine nodup_flatMap_of_apart List.nodup_range (fun c _ => ?_) fun c _ d _ n hn hm => ?_
    · rw [cellNames]
      split
      · exact List.nodup_singleton c
      · exact List.nodup_nil
    · exact (mem_cellNames.mp hn).2.symm.trans (mem_cellNames.mp hm).2
  · refine nodup_flatMap_of_apart List.nodup_range (fun i hi => ?_) fun i hi j hj n hn hm => ?_
    · have hi := List.mem_range.mp hi
      refine nodup_flatMap_of_apart List.nodup_range' (fun v hv => ?_) fun v hv w hw n hn hm => ?_
      · exact valueNames_nodup _ i v
      · obtain ⟨h, -, rfl⟩ := mem_valueNames.mp hn
        obtain ⟨h', -, heq⟩ := mem_valueNames.mp hm
        exact (House.name_inj hi hi (mem_values.mp hv).2 (mem_values.mp hw).2 heq).2.2
    · obtain ⟨v, hv, hn⟩ := List.mem_flatMap.mp hn
      obtain ⟨w, hw, hm⟩ := List.mem_flatMap.mp hm
      obtain ⟨h, -, rfl⟩ := mem_valueNames.mp hn
      obtain ⟨h', -, heq⟩ := mem_valueNames.mp hm
      exact (House.name_inj (List.mem_range.mp hi) (List.mem_range.mp hj) (mem_values.mp hv).2
        (mem_values.mp hw).2 heq).2.1
  · intro n hn m hm heq
    obtain ⟨c, hc, hn⟩ := List.mem_flatMap.mp hn
    obtain ⟨i, -, hm⟩ := List.mem_flatMap.mp hm
    obtain ⟨v, -, hm⟩ := List.mem_flatMap.mp hm
    obtain ⟨h, -, hm⟩ := mem_valueNames.mp hm
    have hlt : c < 81 := List.mem_range.mp hc
    have hle := h.le_name i v
    have hcn := (mem_cellNames.mp hn).2
    omega

theorem length_flatMap_le {α β : Type} {f : α → List β} {k : Nat} {l : List α}
    (hf : ∀ x ∈ l, (f x).length ≤ k) : (l.flatMap f).length ≤ l.length * k := by
  induction l with
  | nil => exact Nat.zero_le _
  | cons x l ih =>
    obtain ⟨hx, hl⟩ := List.forall_mem_cons.mp hf
    rw [List.flatMap_cons, List.length_append, List.length_cons, Nat.succ_mul, Nat.add_comm]
    exact Nat.add_le_add (ih hl) hx

theorem length_columnNames_le (board : Nat → Int) : (columnNames board).length ≤ 324 := by
  have hcells : ((List.range kCells).flatMap (cellNames board)).length ≤ 81 * 1 := by
    refine (length_flatMap_le fun c _ => ?_).trans_eq (by rw [List.length_range, kCells])
    rw [cellNames]
    split
    · exact Nat.le_refl 1
    · exact Nat.zero_le 1
  have hvalues : ((List.range 9).flatMap fun i =>
      (List.range' 1 9).flatMap fun v => valueNames (seen board) i v).length ≤ 9 * (9 * 3) := by
    refine (length_flatMap_le fun i _ => ?_).trans_eq (by rw [List.length_range])
    refine (length_flatMap_le fun v _ => ?_).trans_eq (by rw [List.length_range'])
    exact (valueNames_sublist _ _ _).length_le
  rw [columnNames, List.length_append]
  omega

theorem length_choices_le (board : Nat → Int) : (choices board).length ≤ 729 := by
  refine (length_flatMap_le (k := 9 * 1) fun i _ => ?_).trans_eq (by rw [List.length_range, kCells])
  rw [cellChoices]
  split
  · refine (length_flatMap_le fun v _ => ?_).trans_eq (by rw [List.length_range'])
    split
    · exact Nat.le_refl 1
    · exact Nat.zero_le 1
  · exact Nat.zero_le _

theorem rowsFit_choices (board : Nat → Int) : RowsFit (columnNames board) (choices board) := by
  refine ⟨?_, fun p hp n hn => ?_⟩
  · have hnames := length_columnNames_le board
    have hchoices := length_choices_le board
    rw [kMaxNodes]
    omega
  · obtain ⟨hc, hzero, hv, hall⟩ := mem_choices.mp hp
    refine mem_columnNames.mpr ?_
    rcases mem_rowNames.mp hn with rfl | ⟨h, rfl⟩
    · exact .inl ⟨hc, hzero⟩
    · exact .inr ⟨h, h.of p.1, p.2, h.of_lt hc, hv, hall h, rfl⟩

/-! ## Solutions -/

/-- A grid that has the values of the board, and no value twice in a house. -/
structure Solves (board : Nat → Int) (g : Nat → Nat) : Prop where
  range : ∀ c < kCells, 0 < g c ∧ g c < 10
  keeps : ∀ c < kCells, board c = 0 ∨ board c = g c
  house : ∀ (h : House), ∀ c < kCells, ∀ d < kCells, h.of c = h.of d → g c = g d → c = d

/-- In nine cells, no value is there twice exactly if each is there. -/
theorem House.injective_iff_surjective {g : Nat → Nat} {i : Nat} (h : House)
    (hrange : ∀ c < kCells, 0 < g c ∧ g c < 10) (hi : i < 9) :
    (∀ c < kCells, ∀ d < kCells, h.of c = i → h.of d = i → g c = g d → c = d) ↔
      ∀ v, 0 < v → v < 10 → ∃ c < kCells, h.of c = i ∧ g c = v := by
  have hcell : ∀ k : Fin 9, 0 < g (h.cellAt i k) ∧ g (h.cellAt i k) < 10 := fun k =>
    hrange _ (h.cellAt_lt hi k.isLt)
  let f : Fin 9 → Fin 9 := fun k => ⟨g (h.cellAt i k) - 1, by have := hcell k; omega⟩
  have hf : ∀ k l, f k = f l ↔ g (h.cellAt i k) = g (h.cellAt i l) := by
    intro k l
    have hk := hcell k
    have hl := hcell l
    rw [Fin.mk.injEq]
    omega
  have hiff : Function.Injective f ↔ Function.Surjective f := Finite.injective_iff_surjective
  refine ⟨fun hinj v hpos hlt => ?_, fun hsurj c hc d hd hci hdi heq => ?_⟩
  · have hinjective : Function.Injective f := fun k l hkl => by
      have hcells := hinj _ (h.cellAt_lt hi k.isLt) _ (h.cellAt_lt hi l.isLt)
        (h.of_cellAt hi k.isLt) (h.of_cellAt hi l.isLt) ((hf k l).mp hkl)
      exact Fin.ext (h.cellAt_inj hcells)
    obtain ⟨k, hk⟩ := hiff.mp hinjective ⟨v - 1, by omega⟩
    refine ⟨_, h.cellAt_lt hi k.isLt, h.of_cellAt hi k.isLt, ?_⟩
    have hk := Fin.mk.inj hk
    have := hcell k
    omega
  · have hsurjective : Function.Surjective f := fun v => by
      obtain ⟨c, hc, hci, hv⟩ := hsurj (v + 1) (Nat.succ_pos _) (by omega)
      obtain ⟨k, hk, rfl⟩ := h.exists_cellAt hc hci
      exact ⟨⟨k, hk⟩, Fin.ext (Nat.sub_eq_of_eq_add hv)⟩
    obtain ⟨k, hk, rfl⟩ := h.exists_cellAt hc hci
    obtain ⟨l, hl, rfl⟩ := h.exists_cellAt hd hdi
    have hkl := hiff.mpr hsurjective ((hf ⟨k, hk⟩ ⟨l, hl⟩).mpr heq)
    rw [Fin.mk.inj hkl]

theorem written_of_notMem {l : List (Nat × Nat)} (hc : c ∉ l.map Prod.fst) :
    written l board c = board c := by
  induction l generalizing board with
  | nil => rfl
  | cons p l ih =>
    rw [List.map_cons, List.mem_cons, not_or] at hc
    rw [written, List.foldl_cons, ← written, ih hc.2, Function.update_of_ne hc.1]

theorem written_of_mem {l : List (Nat × Nat)} (hl : (l.map Prod.fst).Nodup) (hp : (c, v) ∈ l) :
    written l board c = v := by
  induction l generalizing board with
  | nil => exact absurd hp List.not_mem_nil
  | cons p l ih =>
    obtain ⟨hnot, hl⟩ := List.nodup_cons.mp hl
    rw [written, List.foldl_cons, ← written]
    rcases List.mem_cons.mp hp with rfl | hp
    · rw [written_of_notMem hnot, Function.update_self]
    · exact ih hl hp

/-- What covers the columns solves the board. -/
theorem solves_of_covers {sel : List (Nat × Nat)} (hboard : ∀ c < kCells, 0 ≤ board c ∧ board c ≤ 9)
    (hsel : ∀ p ∈ sel, p ∈ choices board) (hcovers : Covers rowNames sel (columnNames board)) :
    ∃ g, Solves board g ∧ ∀ c < kCells, written sel board c = g c := by
  have hnodup := hcovers.nodup_iff.mpr (columnNames_nodup board)
  have hfst : (sel.map Prod.fst).Nodup := by
    refine List.pairwise_map.mpr ((List.nodup_flatMap.mp hnodup).2.imp fun {p q} hapart heq => ?_)
    exact hapart (mem_rowNames.mpr (.inl rfl)) (mem_rowNames.mpr (.inl heq))
  have hempty : ∀ c < kCells, board c = 0 →
      ∃ v : Nat, 0 < v ∧ v < 10 ∧ written sel board c = v := by
    intro c hc hzero
    have hmem := hcovers.mem_iff.mpr (mem_columnNames.mpr (.inl ⟨hc, hzero⟩))
    obtain ⟨⟨d, v⟩, hp, hcp⟩ := List.mem_flatMap.mp hmem
    obtain ⟨-, -, hv, -⟩ := mem_choices.mp (hsel _ hp)
    refine ⟨v, hv.1, hv.2, ?_⟩
    rcases mem_rowNames.mp hcp with rfl | ⟨h, heq⟩
    · exact written_of_mem hfst hp
    · have hle := h.le_name (h.of d) v
      rw [kCells] at hc
      exact absurd heq (by omega)
  have hfull : ∀ c < kCells, board c ≠ 0 → written sel board c = board c := by
    intro c _ hne
    refine written_of_notMem fun hmem => ?_
    obtain ⟨⟨d, v⟩, hp, rfl⟩ := List.mem_map.mp hmem
    exact hne (mem_choices.mp (hsel _ hp)).2.1
  have hvalue : ∀ c < kCells, ∃ v : Nat, 0 < v ∧ v < 10 ∧ written sel board c = v := by
    intro c hc
    by_cases hzero : board c = 0
    · exact hempty c hc hzero
    · have hdigit := hboard c hc
      refine ⟨(board c).toNat, by omega, by omega, ?_⟩
      rw [hfull c hc hzero]
      omega
  have hgrid : ∀ c < kCells, written sel board c = (written sel board c).toNat := by
    intro c hc
    obtain ⟨v, -, -, heq⟩ := hvalue c hc
    rw [heq, Int.toNat_natCast]
  have hrange : ∀ c < kCells,
      0 < (written sel board c).toNat ∧ (written sel board c).toNat < 10 := by
    intro c hc
    obtain ⟨v, hpos, hlt, heq⟩ := hvalue c hc
    rw [heq, Int.toNat_natCast]
    exact ⟨hpos, hlt⟩
  refine ⟨fun c => (written sel board c).toNat, ⟨hrange, fun c hc => ?_, ?_⟩, hgrid⟩
  · by_cases hzero : board c = 0
    · exact .inl hzero
    · exact .inr ((hfull c hc hzero).symm.trans (hgrid c hc))
  · intro h c hc d hd hof heq
    refine (h.injective_iff_surjective hrange (h.of_lt hd)).mpr (fun v hpos hlt => ?_) c hc d hd hof
      rfl heq
    by_cases hseen : h.seen (seen board) (h.of d) v = true
    · obtain ⟨e, he, hof, hev⟩ := House.seen_iff.mp hseen
      refine ⟨e, he, hof, ?_⟩
      rw [hfull e he (by omega), hev, Int.toNat_natCast]
    · have hmem := hcovers.mem_iff.mpr (mem_columnNames.mpr (.inr ⟨h, h.of d, v, h.of_lt hd,
        ⟨hpos, hlt⟩, Bool.eq_false_iff.mpr hseen, rfl⟩))
      obtain ⟨⟨e, w⟩, hp, hep⟩ := List.mem_flatMap.mp hmem
      obtain ⟨he, -, hw, -⟩ := mem_choices.mp (hsel _ hp)
      rcases mem_rowNames.mp hep with heq | ⟨h', heq⟩
      · have hle := h.le_name (h.of d) v
        have he' : e < 81 := he
        exact absurd heq (by omega)
      · obtain ⟨rfl, hof, rfl⟩ := House.name_inj (h.of_lt hd) (h'.of_lt he) hlt hw.2 heq
        refine ⟨e, he, hof.symm, ?_⟩
        rw [written_of_mem hfst hp, Int.toNat_natCast]

/-- The values of the empty cells. -/
def picksOf (board : Nat → Int) (g : Nat → Nat) : List (Nat × Nat) :=
  ((List.range kCells).filter fun c => board c = 0).map fun c => (c, g c)

theorem mem_picksOf {g : Nat → Nat} :
    p ∈ picksOf board g ↔ p.1 < kCells ∧ board p.1 = 0 ∧ p.2 = g p.1 := by
  rw [picksOf, List.mem_map]
  refine ⟨?_, fun ⟨hc, hzero, hv⟩ => ⟨p.1, ?_, Prod.ext rfl hv.symm⟩⟩
  · rintro ⟨c, hc, rfl⟩
    rw [List.mem_filter, List.mem_range, decide_eq_true_iff] at hc
    exact ⟨hc.1, hc.2, rfl⟩
  · rw [List.mem_filter, List.mem_range, decide_eq_true_iff]
    exact ⟨hc, hzero⟩

/-- And what solves the board covers the columns. -/
theorem covers_of_solves {g : Nat → Nat} (hg : Solves board g) :
    (∀ p ∈ picksOf board g, p ∈ choices board) ∧
      Covers rowNames (picksOf board g) (columnNames board) := by
  have hkeeps : ∀ c < kCells, board c ≠ 0 → board c = g c := fun c hc hne =>
    (hg.keeps c hc).resolve_left hne
  have hunseen : ∀ c < kCells, board c = 0 → ∀ h : House,
      h.seen (seen board) (h.of c) (g c) = false := by
    intro c hc hzero h
    refine Bool.eq_false_iff.mpr fun hseen => ?_
    obtain ⟨d, hd, hof, hdv⟩ := House.seen_iff.mp hseen
    have hpos := (hg.range c hc).1
    have heq := hkeeps d hd (by omega)
    obtain rfl := hg.house h d hd c hc hof (by omega)
    omega
  have hpicks : ∀ p ∈ picksOf board g, p ∈ choices board := by
    rintro ⟨c, v⟩ hp
    obtain ⟨hc, hzero, hv⟩ := mem_picksOf.mp hp
    obtain rfl : v = g c := hv
    exact mem_choices.mpr ⟨hc, hzero, hg.range c hc, hunseen c hc hzero⟩
  have hnodup : (picksOf board g).Nodup :=
    (List.nodup_range.filter _).map fun c d heq => (Prod.mk.inj heq).1
  refine ⟨hpicks, (List.perm_ext_iff_of_nodup ?_ (columnNames_nodup board)).mpr fun n => ?_⟩
  · refine nodup_flatMap_of_apart hnodup (fun p hp => ?_) ?_
    · exact rowNames_nodup (isChoice_of_mem (hpicks p hp))
    · rintro ⟨c, v⟩ hp ⟨d, w⟩ hq n hn hm
      obtain ⟨hc, -, hv⟩ := mem_picksOf.mp hp
      obtain ⟨hd, -, hw⟩ := mem_picksOf.mp hq
      obtain rfl : v = g c := hv
      obtain rfl : w = g d := hw
      have hcell : ∀ e < kCells, ∀ (h : House) (i v : Nat), e ≠ h.name i v := by
        intro e he h i v heq
        have hle := h.le_name i v
        rw [kCells] at he
        omega
      rcases mem_rowNames.mp hn with rfl | ⟨h, rfl⟩
      · rcases mem_rowNames.mp hm with rfl | ⟨h', heq⟩
        · rfl
        · exact absurd heq (hcell _ hc h' _ _)
      · rcases mem_rowNames.mp hm with heq | ⟨h', heq⟩
        · exact absurd heq.symm (hcell _ hd h _ _)
        · obtain ⟨rfl, hof, hval⟩ := House.name_inj (h.of_lt hc) (h'.of_lt hd) (hg.range c hc).2
            (hg.range d hd).2 heq
          rw [hg.house h c hc d hd hof hval]
  · rw [List.mem_flatMap, mem_columnNames]
    refine ⟨?_, ?_⟩
    · rintro ⟨⟨c, v⟩, hp, hn⟩
      obtain ⟨hc, hzero, hv⟩ := mem_picksOf.mp hp
      obtain rfl : v = g c := hv
      rcases mem_rowNames.mp hn with rfl | ⟨h, rfl⟩
      · exact .inl ⟨hc, hzero⟩
      · exact .inr ⟨h, h.of c, g c, h.of_lt hc, hg.range c hc, hunseen c hc hzero h, rfl⟩
    · rintro (⟨hn, hzero⟩ | ⟨h, i, v, hi, hv, hseen, rfl⟩)
      · exact ⟨(n, g n), mem_picksOf.mpr ⟨hn, hzero, rfl⟩, mem_rowNames.mpr (.inl rfl)⟩
      · have hinj : ∀ c < kCells, ∀ d < kCells, h.of c = i → h.of d = i → g c = g d → c = d :=
          fun c hc d hd hci hdi => hg.house h c hc d hd (hci.trans hdi.symm)
        obtain ⟨c, hc, rfl, rfl⟩ :=
          (h.injective_iff_surjective hg.range hi).mp hinj v hv.1 hv.2
        -- the cell is empty, for the house lacks the value on the board
        have hzero : board c = 0 := by
          by_contra hne
          have hsame : h.seen (seen board) (h.of c) (g c) = true :=
            House.seen_iff.mpr ⟨c, hc, rfl, hkeeps c hc hne⟩
          exact Bool.noConfusion (hseen.symm.trans hsame)
        exact ⟨(c, g c), mem_picksOf.mpr ⟨hc, hzero, rfl⟩, mem_rowNames.mpr (.inr ⟨h, rfl⟩)⟩

end Cnet.Examples.Sudoku
