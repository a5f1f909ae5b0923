import Cnet.Examples.Sudoku.Grid

/-!
# What `solveSudoku` answers

Whatever the 81 characters are, the answer is a grid that solves the puzzle, or it is that
there is no solution and there is none.
-/

namespace Cnet.Examples.Sudoku

open Cnet.Support Cnet.Base SudokuSolver

variable {board : Nat → Int} {memory : Nodes} {s : SudokuSolver} {names : List Nat}
  {made : List (Nat × Nat)} {M : Matrix} {answer : Nat → Nat × Nat}

/-- The nodes that are picked cover the columns as what they stand for does. -/
theorem Start.covers (h : Start s names made M answer) {picks : List Nat}
    (hpicks : ∀ x ∈ picks, M.IsNode x) (hcovers : Covers M.cols picks M.heads) :
    Covers rowNames (picks.map answer) names := by
  have hnames : Covers (fun x => rowNames (answer x)) picks (M.heads.map s.name) :=
    hcovers.map fun x hx => (h.row x (hpicks x hx)).symm
  rw [h.names_eq] at hnames
  rwa [Covers, List.flatMap_map]

/-- The column of a name. -/
def columnOf (s : SudokuSolver) (n : Nat) : Nat := (s.columns_ n).getD 0

theorem Start.map_columnOf (h : Start s names made M answer) {l : List Nat} (hl : l ⊆ M.heads) :
    (l.map s.name).map (columnOf s) = l := by
  rw [List.map_map, List.map_congr_left (g := id), List.map_id]
  intro d hd
  show columnOf s (s.name d) = d
  rw [columnOf, h.columns d (hl hd), Option.getD_some]

/-- Whatever covers the columns by name can be picked. -/
theorem Start.exists_picks (h : Start s names made M answer) {sel : List (Nat × Nat)}
    (hsel : ∀ p ∈ sel, p ∈ made) (hcovers : Covers rowNames sel names) :
    ∃ picks, (∀ x ∈ picks, M.IsNode x) ∧ Covers M.cols picks M.heads := by
  have hexists : ∀ p, ∃ x, p ∈ made → M.IsNode x ∧ answer x = p := by
    intro p
    by_cases hp : p ∈ made
    · exact (h.exists_node p hp).imp fun x hx _ => hx
    · exact ⟨0, fun hmem => absurd hmem hp⟩
  choose node hnode using hexists
  refine ⟨sel.map node, fun x hx => ?_, ?_⟩
  · obtain ⟨p, hp, rfl⟩ := List.mem_map.mp hx
    exact (hnode p (hsel p hp)).1
  · have hcols : ∀ p ∈ sel, (M.cols (node p)).Perm ((rowNames p).map (columnOf s)) := by
      intro p hp
      obtain ⟨hisNode, hanswer⟩ := hnode p (hsel p hp)
      have hsub : M.cols (node p) ⊆ M.heads := by
        intro c hc
        obtain ⟨y, hy, rfl⟩ := List.mem_map.mp hc
        rcases List.mem_cons.mp hy with rfl | hy
        · exact hisNode.1
        · exact (hisNode.others hy).1
      have hperm := (h.row _ hisNode).map (columnOf s)
      rwa [h.map_columnOf hsub, hanswer] at hperm
    have hheads : Covers (fun p => M.cols (node p)) sel (names.map (columnOf s)) :=
      hcovers.map hcols
    rw [← h.names_eq, h.map_columnOf (List.Subset.refl _)] at hheads
    rwa [Covers, List.flatMap_map]

/-- The constructor on any board: what the search starts from. -/
theorem create_start (memory : Nodes) (board : Nat → Int) :
    ∃ s M answer, create memory board = some s ∧
      RowsMade board (columnNames board) s (choices board) ∧
      Start s (columnNames board) (choices board) M answer := by
  have hfit := rowsFit_choices board
  have hcolumns : ColumnsFit (columnNames board) :=
    ⟨columnNames_nodup board, Nat.lt_of_le_of_lt (Nat.le_add_right _ _) hfit.1⟩
  obtain ⟨s, hs, hmade⟩ := create_made memory board hcolumns hfit
  obtain ⟨M, answer, hstart⟩ := exists_start hmade hfit fun p hp => isChoice_of_mem hp
  exact ⟨s, M, answer, hs, hmade, hstart⟩

/-- No assert of the constructor fails, the nodes suffice, and every link is where the matrix
of the board has it. -/
theorem create_links_matrix (memory : Nodes) (board : Nat → Int) :
    ∃ (s : SudokuSolver) (M : Matrix) (answer : Nat → Nat × Nat),
      create memory board = some s ∧ s.cur_node_ ≤ kMaxNodes ∧
      Headed M s M.heads ∧ M.heads.map s.name = columnNames board ∧
      (∀ p, p ∈ choices board ↔ ∃ x, M.IsNode x ∧ answer x = p) ∧
      ∀ x, M.IsNode x → ((M.cols x).map s.name).Perm (rowNames (answer x)) := by
  obtain ⟨s, M, answer, hs, hmade, hstart⟩ := create_start memory board
  refine ⟨s, M, answer, hs, ?_, hstart.headed, hstart.names_eq, fun p => ?_, hstart.row⟩
  · have hfit := (rowsFit_choices board).1
    rw [hmade.1.cur_eq, length_flatMap_rowNames]
    omega
  · refine ⟨hstart.exists_node p, ?_⟩
    rintro ⟨x, hx, rfl⟩
    exact hstart.answers x hx

/-- From any state between two calls, the search finds a cover of the columns that are left, and
writes it into the board with what is on the stack; or there is none, and the solver is as it
was, with every link and every size. -/
theorem solve_finds_or_restores {A : List Nat} {fuel : Nat} (h : Headed M s A)
    (hname : Labelled M s.name answer) (hstack : ∀ x ∈ s.stack_, M.IsNode x)
    (hfuel : A.length < fuel) :
    (∃ picks s', s.solve fuel = some (true, s') ∧ (∀ x ∈ picks, M.IsNode x) ∧
      Covers M.cols picks A ∧ s'.inout_ = written ((s.stack_ ++ picks).map answer) s.inout_) ∨
    (s.solve fuel = some (false, s) ∧
      ¬ ∃ picks, (∀ x ∈ picks, M.IsNode x) ∧ Covers M.cols picks A) :=
  searches_solve M answer hfuel s h hname hstack

/-- On the empty board, when nothing has been picked. -/
theorem solve_finds_or_restores_blank :
    ∃ (s : SudokuSolver) (M : Matrix) (answer : Nat → Nat × Nat),
      create ⟨⟨id, id⟩, ⟨id, id⟩, id, id, fun _ => 0⟩ (fun _ => 0) = some s ∧
      ((∃ picks s', s.solve kMaxNodes = some (true, s') ∧ (∀ x ∈ picks, M.IsNode x) ∧
        Covers M.cols picks M.heads ∧
        s'.inout_ = written ((s.stack_ ++ picks).map answer) s.inout_) ∨
      (s.solve kMaxNodes = some (false, s) ∧
        ¬ ∃ picks, (∀ x ∈ picks, M.IsNode x) ∧ Covers M.cols picks M.heads)) := by
  obtain ⟨s, M, answer, hs, hmade, hstart⟩ :=
    create_start ⟨⟨id, id⟩, ⟨id, id⟩, id, id, fun _ => 0⟩ fun _ => 0
  have hstack : ∀ x ∈ s.stack_, M.IsNode x := fun x hx =>
    absurd (hmade.1.stack_eq ▸ hx) List.not_mem_nil
  exact ⟨s, M, answer, hs,
    solve_finds_or_restores hstart.headed hstart.labelled hstack M.heads_length⟩

/-- The constructor and the search, on a board of digits. -/
theorem solve_create (memory : Nodes) (hboard : ∀ c < kCells, 0 ≤ board c ∧ board c ≤ 9) :
    ∃ s, create memory board = some s ∧
      ((∃ s' g, s.solve kMaxNodes = some (true, s') ∧ Solves board g ∧
        ∀ c < kCells, s'.inout_ c = g c) ∨
      s.solve kMaxNodes = some (false, s) ∧ ¬ ∃ g, Solves board g) := by
  obtain ⟨s, M, answer, hs, hmade, hstart⟩ := create_start memory board
  have hstack := hmade.1.stack_eq
  refine ⟨s, hs, ?_⟩
  rcases searches_solve M answer M.heads_length s hstart.headed hstart.labelled
      (fun x hx => absurd (hstack ▸ hx) List.not_mem_nil) with
    ⟨picks, s', hs', hpicks, hcovers, hwritten⟩ | ⟨hfalse, hnone⟩
  · have hsel : ∀ p ∈ picks.map answer, p ∈ choices board := by
      intro p hp
      obtain ⟨x, hx, rfl⟩ := List.mem_map.mp hp
      exact hstart.answers x (hpicks x hx)
    obtain ⟨g, hg, hvalues⟩ := solves_of_covers hboard hsel (hstart.covers hpicks hcovers)
    rw [hstack, List.nil_append, hmade.1.inout_eq] at hwritten
    exact .inl ⟨s', g, hs', hg, fun c hc => hwritten ▸ hvalues c hc⟩
  · refine .inr ⟨hfalse, fun ⟨g, hg⟩ => hnone ?_⟩
    obtain ⟨hsel, hcovers⟩ := covers_of_solves hg
    exact hstart.exists_picks hsel hcovers

/-- The board that a puzzle is read as. -/
def boardOf (puzzle : List UInt8) (c : Nat) : Int := boardValue (puzzle.getD c 0)

/-- The text of a grid. -/
def gridText (g : Nat → Nat) : List UInt8 :=
  (List.range kCells).map fun c => UInt8.ofNat (g c + (charByte '0').toNat)

/-- The characters are read, and whether each is a digit. -/
theorem solveSudoku_eq (memory : Nodes) {puzzle : List UInt8} (h : puzzle.length = kCells) :
    solveSudoku memory (StringPiece.ofString puzzle) =
      if ∀ i < kCells, 0 ≤ boardOf puzzle i ∧ boardOf puzzle i ≤ 9 then
        (create memory (boardOf puzzle)).bind fun s => (s.solve kMaxNodes).bind fun (solved, s) =>
          if solved then
            some ((List.range kCells).map fun i =>
              UInt8.ofNat (s.inout_ i + (charByte '0').toNat).toNat)
          else some kNoSolution
      else some kNoSolution := by
  have hsize : (StringPiece.ofString puzzle).size = kCells := by
    rw [StringPiece.ofString_eq (by rw [h]; decide)]
    exact congrArg Int.ofNat h
  have hload : load (StringPiece.ofString puzzle).data 0 kCells = some puzzle := by
    rw [StringPiece.data_ofString, load, if_pos (by rw [h, Nat.zero_add]), slice, List.drop_zero,
      Nat.zero_add, Nat.sub_zero, ← h, List.take_length]
  rw [solveSudoku, assert_pos hsize]
  show (load _ 0 kCells).bind _ = _
  rw [hload]
  rfl

/-- `solveSudoku` finds a grid that solves the puzzle if there is one, and says so if not. -/
theorem solveSudoku_correct (memory : Nodes) {puzzle : List UInt8} (h : puzzle.length = kCells) :
    (∃ g, Solves (boardOf puzzle) g ∧
      solveSudoku memory (StringPiece.ofString puzzle) = some (gridText g)) ∨
    (¬ ∃ g, Solves (boardOf puzzle) g) ∧
      solveSudoku memory (StringPiece.ofString puzzle) = some kNoSolution := by
  rw [solveSudoku_eq memory h]
  by_cases hboard : ∀ i < kCells, 0 ≤ boardOf puzzle i ∧ boardOf puzzle i ≤ 9
  · rw [if_pos hboard]
    obtain ⟨s, hs, ⟨s', g, hs', hg, hvalues⟩ | ⟨hfalse, hnone⟩⟩ := solve_create memory hboard
    · refine .inl ⟨g, hg, ?_⟩
      rw [hs, Option.bind_some, hs', Option.bind_some]
      refine congrArg some (List.map_congr_left fun c hc => ?_)
      rw [hvalues c (List.mem_range.mp hc)]
      rfl
    · refine .inr ⟨hnone, ?_⟩
      rw [hs, Option.bind_some, hfalse]
      rfl
  · rw [if_neg hboard]
    refine .inr ⟨fun ⟨g, hg⟩ => hboard fun c hc => ?_, rfl⟩
    have hrange := hg.range c hc
    rcases hg.keeps c hc with hzero | hvalue
    · omega
    · omega

/-- The empty board, on nodes that hold nothing yet. -/
theorem solveSudoku_correct_blank :
    (∃ g, Solves (boardOf (List.replicate kCells (charByte '0'))) g ∧
      solveSudoku ⟨⟨id, id⟩, ⟨id, id⟩, id, id, fun _ => 0⟩
        (StringPiece.ofString (List.replicate kCells (charByte '0'))) = some (gridText g)) ∨
    (¬ ∃ g, Solves (boardOf (List.replicate kCells (charByte '0'))) g) ∧
      solveSudoku ⟨⟨id, id⟩, ⟨id, id⟩, id, id, fun _ => 0⟩
        (StringPiece.ofString (List.replicate kCells (charByte '0'))) = some kNoSolution :=
  solveSudoku_correct _ List.length_replicate

end Cnet.Examples.Sudoku
