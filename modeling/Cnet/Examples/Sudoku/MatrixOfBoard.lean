import Mathlib.Data.List.GetD
import Cnet.Examples.Sudoku.Building
import Cnet.Examples.Sudoku.Search

/-!
# The matrix of a board

What the constructor leaves is the matrix that the search starts from. Its rows are the values
that cells can have, and the names of its columns say what the row is about.
-/

namespace Cnet.Examples.Sudoku

open Cnet.Support SudokuSolver

variable {board : Nat → Int} {s : SudokuSolver} {names : List Nat} {made : List (Nat × Nat)}
  {i j x : Nat}

/-! ## The nodes of a row -/

/-- The row that a node is in. -/
def rowIndex (names : List Nat) (x : Nat) : Nat := (x - (names.length + 1)) / 4

/-- The four nodes of a row. -/
def rowNodes (names : List Nat) (i : Nat) : List Nat := List.range' (names.length + 1 + 4 * i) 4

theorem mem_rowNodes : x ∈ rowNodes names i ↔ names.length + 1 ≤ x ∧ rowIndex names x = i := by
  rw [rowNodes, List.mem_range'_1, rowIndex]
  omega

theorem mem_entryNodes_iff :
    x ∈ entryNodes names (made.flatMap rowNames) ↔
      names.length + 1 ≤ x ∧ rowIndex names x < made.length := by
  rw [mem_entryNodes, length_flatMap_rowNames, rowIndex]
  omega

theorem rowNodes_subset (hi : i < made.length) :
    rowNodes names i ⊆ entryNodes names (made.flatMap rowNames) := by
  intro x hx
  obtain ⟨hle, rfl⟩ := mem_rowNodes.mp hx
  exact mem_entryNodes_iff.mpr ⟨hle, hi⟩

/-- The names of the nodes of a row. -/
theorem map_rowNodes (h : RowsMade board names s made) (hi : i < made.length) :
    (rowNodes names i).map s.name = rowNames made[i] := by
  have hsplit : entryNodes names (made.flatMap rowNames)
      = List.range' (names.length + 1) (4 * i) ++ (rowNodes names i ++
        List.range' (names.length + 1 + 4 * i + 4) (4 * (made.length - i - 1))) := by
    rw [entryNodes, length_flatMap_rowNames, rowNodes, List.range'_append_1, List.range'_append_1]
    congr 1
    omega
  have hmade : made.flatMap rowNames
      = (made.take i).flatMap rowNames
        ++ (rowNames made[i] ++ (made.drop (i + 1)).flatMap rowNames) := by
    rw [← List.flatMap_cons, ← List.flatMap_append, List.getElem_cons_drop, List.take_append_drop]
  have hnames := h.1.name_node
  rw [hsplit, hmade, List.map_append, List.map_append] at hnames
  have hlength : ((List.range' (names.length + 1) (4 * i)).map s.name).length
      = ((made.take i).flatMap rowNames).length := by
    rw [List.length_map, List.length_range', length_flatMap_rowNames, List.length_take]
    omega
  exact (List.append_inj (List.append_inj hnames hlength).2 rfl).1

/-- The ring of a row, from any of its nodes. -/
theorem exists_others (h : RowsMade board names s made)
    (hx : x ∈ entryNodes names (made.flatMap rowNames)) :
    ∃ l, s.horizontal.Ring x l ∧ (x :: l).Perm (rowNodes names (rowIndex names x)) := by
  obtain ⟨hle, hi⟩ := mem_entryNodes_iff.mp hx
  have hne : names.length + 1 + 4 * rowIndex names x ≠ 0 := by omega
  have hring := h.2.ring (.inr ⟨rowIndex names x, hi, rfl⟩)
  rw [if_neg hne] at hring
  have hmem : x ∈ rowNodes names (rowIndex names x) := mem_rowNodes.mpr ⟨hle, rfl⟩
  obtain ⟨l, hl, hiff⟩ := hring.at_mem hmem
  exact ⟨l, hl, (List.perm_ext_iff_of_nodup hl.nodup hring.nodup).mpr hiff⟩

/-! ## The matrix -/

/-- A cell and a value that it can have. -/
def IsChoice (p : Nat × Nat) : Prop := p.1 < kCells ∧ 0 < p.2 ∧ p.2 < 10

theorem rowNames_nodup {p : Nat × Nat} (h : IsChoice p) : (rowNames p).Nodup := by
  obtain ⟨hcell, -, hval⟩ := h
  have hrow : rowOf p.1 < 9 := Nat.div_lt_of_lt_mul hcell
  have hcol : colOf p.1 < 9 := Nat.mod_lt _ (by decide)
  simp only [rowNames, getRowCol, getColCol, getBoxCol, kRow, kCol, kBox, kCells] at hcell ⊢
  simp only [List.nodup_cons, List.mem_cons, List.not_mem_nil, or_false, not_or, not_false_eq_true,
    List.nodup_nil, and_true]
  omega

theorem columnNodes_ne {col : Nat → Nat} {entries : List Nat} {d : Nat} (hd : d ∈ heads names)
    (hx : x ∈ columnNodes col names entries d) : col x = d ∧ x ≠ d := by
  obtain ⟨hx, hcol⟩ := mem_columnNodes.mp hx
  have hlt := (mem_heads.mp hd).2
  have hle := (mem_entryNodes.mp hx).1
  exact ⟨hcol, by omega⟩

theorem length_heads_lt (hfit : RowsFit names made) : (heads names).length < kMaxNodes := by
  have := hfit.1
  rw [heads, List.length_range']
  omega

theorem length_columnNodes_lt (hfit : RowsFit names made) (col : Nat → Nat) (d : Nat) :
    (columnNodes col names (made.flatMap rowNames) d).length < kMaxNodes := by
  refine Nat.lt_of_le_of_lt (List.length_filter_le _ _) ?_
  have := hfit.1
  rw [entryNodes, List.length_range', length_flatMap_rowNames]
  omega

/-- The four nodes have different columns. -/
theorem rowNodes_nodup (h : RowsMade board names s made) (hchoice : ∀ p ∈ made, IsChoice p)
    (hi : i < made.length) : ((rowNodes names i).map s.col).Nodup := by
  have hnames : ((rowNodes names i).map s.col).map s.name = rowNames made[i] := by
    rw [← map_rowNodes h hi, List.map_map]
    exact List.map_congr_left fun j hj => (h.1.col_node j (rowNodes_subset hi hj)).2
  refine List.Nodup.of_map s.name ?_
  rw [hnames]
  exact rowNames_nodup (hchoice _ (List.getElem_mem hi))

/-- What the other nodes of each row are, from there to the right. -/
def OthersOf (names : List Nat) (made : List (Nat × Nat)) (others : Nat → List Nat) : Prop :=
  ∀ x ∈ entryNodes names (made.flatMap rowNames),
    (x :: others x).Perm (rowNodes names (rowIndex names x))

section

variable {others : Nat → List Nat} {d : Nat}

theorem OthersOf.mem (hothers : OthersOf names made others)
    (hx : x ∈ entryNodes names (made.flatMap rowNames)) (hj : j ∈ others x) :
    j ∈ entryNodes names (made.flatMap rowNames) ∧ rowIndex names j = rowIndex names x := by
  have hj := (hothers x hx).mem_iff.mp (List.mem_cons_of_mem _ hj)
  exact ⟨rowNodes_subset (mem_entryNodes_iff.mp hx).2 hj, (mem_rowNodes.mp hj).2⟩

theorem OthersOf.perm (hothers : OthersOf names made others)
    (hx : x ∈ entryNodes names (made.flatMap rowNames)) (hj : j ∈ others x) :
    (j :: others j).Perm (x :: others x) := by
  obtain ⟨hentry, hindex⟩ := hothers.mem hx hj
  exact (hindex ▸ hothers j hentry).trans (hothers x hx).symm

theorem OthersOf.length (hothers : OthersOf names made others)
    (hx : x ∈ entryNodes names (made.flatMap rowNames)) : (others x).length + 1 < kMaxNodes := by
  have hlength := (hothers x hx).length_eq
  rw [List.length_cons, rowNodes, List.length_range'] at hlength
  rw [hlength]
  decide

theorem OthersOf.nodup (hothers : OthersOf names made others) (h : RowsMade board names s made)
    (hchoice : ∀ p ∈ made, IsChoice p) (hx : x ∈ entryNodes names (made.flatMap rowNames)) :
    ((x :: others x).map s.col).Nodup :=
  (((hothers x hx).map s.col).nodup_iff).mpr
    (rowNodes_nodup h hchoice (mem_entryNodes_iff.mp hx).2)

end

/-- The matrix that has been made. -/
def matrixOf (h : RowsMade board names s made) (hfit : RowsFit names made)
    (hchoice : ∀ p ∈ made, IsChoice p) (others : Nat → List Nat)
    (hothers : OthersOf names made others) : Matrix where
  root := 0
  heads := heads names
  nodes := columnNodes s.col names (made.flatMap rowNames)
  others := others
  col := s.col
  col_root := h.1.col_zero
  col_head := h.1.col_head
  root_notMem hmem := Nat.lt_irrefl _ (mem_heads.mp hmem).1
  col_node _ hd _ hx := columnNodes_ne hd hx
  row_node _ _ _ hx _ hj :=
    have hentry := (hothers.mem (mem_columnNodes.mp hx).1 hj).1
    ⟨(h.1.col_node _ hentry).1, mem_columnNodes.mpr ⟨hentry, rfl⟩⟩
  row_perm _ _ _ hx _ hj := hothers.perm (mem_columnNodes.mp hx).1 hj
  row_nodup _ _ _ hx := hothers.nodup h hchoice (mem_columnNodes.mp hx).1
  heads_length := length_heads_lt hfit
  nodes_length d _ := length_columnNodes_lt hfit s.col d
  others_length _ _ _ hx := hothers.length (mem_columnNodes.mp hx).1

/-- The answer of a node is what its row stands for. -/
def answerOf (names : List Nat) (made : List (Nat × Nat)) (x : Nat) : Nat × Nat :=
  made.getD (rowIndex names x) (0, 0)

/-- What the constructor leaves to the search. -/
structure Start (s : SudokuSolver) (names : List Nat) (made : List (Nat × Nat)) (M : Matrix)
    (answer : Nat → Nat × Nat) : Prop where
  headed : Headed M s M.heads
  labelled : Labelled M s.name answer
  names_eq : M.heads.map s.name = names
  columns : ∀ d ∈ M.heads, s.columns_ (s.name d) = some d
  answers : ∀ x, M.IsNode x → answer x ∈ made
  row : ∀ x, M.IsNode x → ((M.cols x).map s.name).Perm (rowNames (answer x))
  exists_node : ∀ p ∈ made, ∃ x, M.IsNode x ∧ answer x = p

/-- The names of a row are a cell and three that have the value as their last digit. -/
theorem labels_of_perm {l : List Nat} {p : Nat × Nat} {name : Nat → Nat} (hp : IsChoice p)
    (hperm : (l.map name).Perm (rowNames p)) :
    (∃ y ∈ l, name y < 100) ∧ (∃ y ∈ l, ¬ name y < 100) ∧
      ∀ y ∈ l, if name y < 100 then name y = p.1 else name y % 10 = p.2 := by
  obtain ⟨hcell, -, hval⟩ := hp
  have hcell : p.1 < 100 := Nat.lt_trans hcell (by decide)
  have hnames : ∀ n ∈ rowNames p, n = p.1 ∨ 100 ≤ n ∧ n % 10 = p.2 := by
    intro n hn
    simp only [rowNames, getRowCol, getColCol, getBoxCol, kRow, kCol, kBox, List.mem_cons,
      List.not_mem_nil, or_false] at hn
    omega
  have hmem : ∀ n ∈ rowNames p, ∃ y ∈ l, name y = n := fun n hn =>
    List.mem_map.mp (hperm.mem_iff.mpr hn)
  refine ⟨?_, ?_, fun y hy => ?_⟩
  · obtain ⟨y, hy, hname⟩ := hmem p.1 List.mem_cons_self
    exact ⟨y, hy, hname ▸ hcell⟩
  · obtain ⟨y, hy, hname⟩ := hmem (getRowCol (rowOf p.1) p.2) (by simp [rowNames])
    refine ⟨y, hy, ?_⟩
    rw [hname, getRowCol, kRow]
    omega
  · rcases hnames _ (hperm.mem_iff.mp (List.mem_map_of_mem hy)) with heq | ⟨hle, hmod⟩
    · rw [if_pos (heq ▸ hcell)]
      exact heq
    · rw [if_neg (Nat.not_lt.mpr hle)]
      exact hmod

theorem exists_start (h : RowsMade board names s made) (hfit : RowsFit names made)
    (hchoice : ∀ p ∈ made, IsChoice p) : ∃ M answer, Start s names made M answer := by
  have hexists : ∀ x, ∃ l, x ∈ entryNodes names (made.flatMap rowNames) →
      s.horizontal.Ring x l ∧ (x :: l).Perm (rowNodes names (rowIndex names x)) := by
    intro x
    by_cases hx : x ∈ entryNodes names (made.flatMap rowNames)
    · exact (exists_others h hx).imp fun l hl _ => hl
    · exact ⟨[], fun hmem => absurd hmem hx⟩
  choose others hothers using hexists
  have hperm := fun x hx => (hothers x hx).2
  let M := matrixOf h hfit hchoice others hperm
  have hnode : ∀ x, M.IsNode x ↔ x ∈ entryNodes names (made.flatMap rowNames) := fun x =>
    ⟨fun hx => (mem_columnNodes.mp hx.2).1,
      fun hx => ⟨(h.1.col_node x hx).1, mem_columnNodes.mpr ⟨hx, rfl⟩⟩⟩
  have hanswer : ∀ x, M.IsNode x → ∃ hi : rowIndex names x < made.length,
      answerOf names made x = made[rowIndex names x] := fun x hx =>
    have hi := (mem_entryNodes_iff.mp ((hnode x).mp hx)).2
    ⟨hi, List.getD_eq_getElem _ _ hi⟩
  have hrow : ∀ x, M.IsNode x →
      ((x :: others x).map s.name).Perm (rowNames (answerOf names made x)) := by
    intro x hx
    obtain ⟨hi, heq⟩ := hanswer x hx
    rw [heq, ← map_rowNodes h hi]
    exact (hperm x ((hnode x).mp hx)).map s.name
  have hopened : ∀ d ∈ heads names,
      M.opened (heads names) d = columnNodes s.col names (made.flatMap rowNames) d := by
    intro d hd
    refine List.filter_eq_self.mpr fun x hx => decide_eq_true fun c hc => ?_
    have hx : M.IsNode x := Matrix.isNode_of_mem hd hx
    obtain ⟨y, hy, rfl⟩ := List.mem_map.mp hc
    rcases List.mem_cons.mp hy with rfl | hy
    · exact hx.1
    · exact (hx.others hy).1
  have hheaded : Headed M s (heads names) := by
    refine ⟨List.Subset.refl _, h.1.root_eq, rfl, ?_, fun x hx => (hothers x ((hnode x).mp hx)).1,
      h.1.vertical.of_eq (fun _ hd => hd) hopened, fun d hd => ?_⟩
    · exact h.2.ring (.inl rfl)
    · rw [hopened d hd]
      exact h.1.size d hd
  refine ⟨M, answerOf names made, hheaded, fun x hx => ?_, h.1.name_head, h.1.columns_head,
    fun x hx => ?_, fun x hx => ?_, fun p hp => ?_⟩
  · obtain ⟨hi, heq⟩ := hanswer x hx
    exact labels_of_perm (heq ▸ hchoice _ (List.getElem_mem hi)) (hrow x hx)
  · obtain ⟨hi, heq⟩ := hanswer x hx
    exact heq ▸ List.getElem_mem hi
  · have hnames : (M.cols x).map s.name = (x :: others x).map s.name := by
      rw [Matrix.cols, List.map_map]
      refine List.map_congr_left fun y hy => ?_
      have hy : M.IsNode y := by
        rcases List.mem_cons.mp hy with rfl | hy
        · exact hx
        · exact hx.others hy
      exact (h.1.col_node y ((hnode y).mp hy)).2
    rw [hnames]
    exact hrow x hx
  · obtain ⟨i, hi, rfl⟩ := List.mem_iff_getElem.mp hp
    have hmem : names.length + 1 + 4 * i ∈ rowNodes names i := by
      rw [rowNodes, List.mem_range'_1]
      omega
    have hx := (hnode _).mpr (rowNodes_subset hi hmem)
    obtain ⟨_, heq⟩ := hanswer _ hx
    refine ⟨_, hx, heq.trans ?_⟩
    congr 1
    exact (mem_rowNodes.mp hmem).2

end Cnet.Examples.Sudoku
