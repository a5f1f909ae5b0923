import Cnet.Support.Rings
import Cnet.Base.StringPiece
import Cnet.Base.Format

/-!
# The sudoku solver

`SudokuSolver` is dancing links. The nodes are indices into `nodes_`; a node is linked in two
directions, and `left` and `right` are one of them, `up` and `down` the other. A loop along
the links has fuel, of which there is one unit for each node that `nodes_` has room for.
-/

namespace Cnet.Examples.Sudoku

open Cnet.Support Cnet.Base

def kCells : Nat := 81

def kMaxNodes : Nat := 1 + 81 * 4 + 9 * 9 * 9 * 4

def kRow : Nat := 100

def kCol : Nat := 200

def kBox : Nat := 300

def kNoSolution : List UInt8 := chars "NoSolution"

/-- `nodes_`, a field of `Node` at a time. -/
structure Nodes where
  horizontal : Links Nat
  vertical : Links Nat
  col : Nat → Nat
  name : Nat → Nat
  size : Nat → Int

namespace Nodes

def right (s : Nodes) : Nat → Nat := s.horizontal.next

def left (s : Nodes) : Nat → Nat := s.horizontal.prev

def down (s : Nodes) : Nat → Nat := s.vertical.next

def up (s : Nodes) : Nat → Nat := s.vertical.prev

end Nodes

/-- `columns_` has the null pointer where there is no column. -/
structure SudokuSolver extends Nodes where
  root_ : Nat
  inout_ : Nat → Int
  columns_ : Nat → Option Nat
  stack_ : List Nat
  cur_node_ : Nat

namespace SudokuSolver

/-! ## Building the matrix -/

/-- The next node of `nodes_`, after `memset` and with its own links. -/
def newNode (name : Nat) (s : SudokuSolver) : Option (Nat × SudokuSolver) := do
  assert (s.cur_node_ < kMaxNodes)
  let c := s.cur_node_
  some (c, { s with
    cur_node_ := c + 1
    horizontal := s.horizontal.single c
    vertical := s.vertical.single c
    name := Function.update s.name c name
    size := Function.update s.size c 0 })

def newColumn (n : Nat) (s : SudokuSolver) : Option (Nat × SudokuSolver) := do
  let (c, s) ← s.newNode n
  some (c, { s with col := Function.update s.col c c })

def putLeft (old nnew : Nat) (s : SudokuSolver) : SudokuSolver :=
  { s with horizontal := s.horizontal.insert old nnew }

def putUp (old nnew : Nat) (s : SudokuSolver) : SudokuSolver :=
  { s with
    vertical := s.vertical.insert old nnew
    size := Function.update s.size old (s.size old + 1)
    col := Function.update s.col nnew old }

def appendColumn (n : Nat) (s : SudokuSolver) : Option SudokuSolver := do
  assert (s.columns_ n = none)
  let (c, s) ← s.newColumn n
  let s := s.putLeft s.root_ c
  some { s with columns_ := Function.update s.columns_ n (some c) }

def newRow (col : Nat) (s : SudokuSolver) : Option (Nat × SudokuSolver) := do
  let c ← s.columns_ col
  let (r, s) ← s.newNode col
  some (r, s.putUp c r)

def getRowCol (row val : Nat) : Nat := kRow + row * 10 + val

def getColCol (col val : Nat) : Nat := kCol + col * 10 + val

def getBoxCol (box val : Nat) : Nat := kBox + box * 10 + val

def rowOf (i : Nat) : Nat := i / 9

def colOf (i : Nat) : Nat := i % 9

def boxOf (i : Nat) : Nat := rowOf i / 3 * 3 + colOf i / 3

/-- The arrays `rows`, `cols` and `boxes` of the constructor, which are `bool[81][10]`.
`solveSudoku` makes a solver only for a board of values from 0 to 9, and then `House.seen_inside`
says that nothing is marked outside of them. -/
structure Seen where
  rows : Nat → Int → Bool
  cols : Nat → Int → Bool
  boxes : Nat → Int → Bool

def mark (seen : Nat → Int → Bool) (i : Nat) (val : Int) : Nat → Int → Bool :=
  Function.update seen i (Function.update (seen i) val true)

def Seen.cell (inout_ : Nat → Int) (seen : Seen) (i : Nat) : Seen :=
  { rows := mark seen.rows (rowOf i) (inout_ i)
    cols := mark seen.cols (colOf i) (inout_ i)
    boxes := mark seen.boxes (boxOf i) (inout_ i) }

def seen (inout_ : Nat → Int) : Seen :=
  (List.range kCells).foldl (Seen.cell inout_)
    ⟨fun _ _ => false, fun _ _ => false, fun _ _ => false⟩

def appendUnless (seen : Bool) (n : Nat) (s : SudokuSolver) : Option SudokuSolver :=
  if seen then some s else s.appendColumn n

def appendColumns (seen : Seen) (i v : Nat) (s : SudokuSolver) : Option SudokuSolver := do
  let s ← s.appendUnless (seen.rows i v) (getRowCol i v)
  let s ← s.appendUnless (seen.cols i v) (getColCol i v)
  s.appendUnless (seen.boxes i v) (getBoxCol i v)

/-- The four nodes of a value in a cell. -/
def appendRow (i v : Nat) (s : SudokuSolver) : Option SudokuSolver := do
  let (n0, s) ← s.newRow i
  let (nr, s) ← s.newRow (getRowCol (rowOf i) v)
  let (nc, s) ← s.newRow (getColCol (colOf i) v)
  let (nb, s) ← s.newRow (getBoxCol (boxOf i) v)
  some (((s.putLeft n0 nr).putLeft n0 nc).putLeft n0 nb)

def candidate (seen : Seen) (i v : Nat) : Bool :=
  !(seen.rows (rowOf i) v || seen.cols (colOf i) v || seen.boxes (boxOf i) v)

/-- The constructor. `memory` is what the nodes are before they are used. -/
def create (memory : Nodes) (board : Nat → Int) : Option SudokuSolver := do
  let (root, s) ← newColumn 0 ⟨memory, 0, board, fun _ => none, [], 0⟩
  let s := { s with root_ := root, horizontal := s.horizontal.single root }
  let seen := seen s.inout_
  let s ← (List.range kCells).foldlM
    (fun s i => if s.inout_ i = 0 then s.appendColumn i else some s) s
  let s ← (List.range 9).foldlM
    (fun s i => (List.range' 1 9).foldlM (fun s v => s.appendColumns seen i v) s) s
  (List.range kCells).foldlM
    (fun s i =>
      if s.inout_ i = 0 then
        (List.range' 1 9).foldlM
          (fun s v => if candidate seen i v then s.appendRow i v else some s) s
      else some s) s

/-! ## Covering columns -/

/-- One node leaves its column. -/
def hide (s : SudokuSolver) (j : Nat) : SudokuSolver :=
  { s with
    vertical := s.vertical.unlink j
    size := Function.update s.size (s.col j) (s.size (s.col j) - 1) }

def unhide (s : SudokuSolver) (j : Nat) : SudokuSolver :=
  { s with
    size := Function.update s.size (s.col j) (s.size (s.col j) + 1)
    vertical := s.vertical.relink j }

/-- `for (Node* j = row->right; j != row; j = j->right)` -/
def forRight (body : Nat → SudokuSolver → Option SudokuSolver) (row : Nat) (s : SudokuSolver) :
    Option SudokuSolver :=
  Links.walk (fun s => s.right) body row kMaxNodes (s.right row) s

/-- `for (Node* j = row->left; j != row; j = j->left)` -/
def forLeft (body : Nat → SudokuSolver → Option SudokuSolver) (row : Nat) (s : SudokuSolver) :
    Option SudokuSolver :=
  Links.walk (fun s => s.left) body row kMaxNodes (s.left row) s

def cover (c : Nat) (s : SudokuSolver) : Option SudokuSolver :=
  let s := { s with horizontal := s.horizontal.unlink c }
  Links.walk (fun s => s.down) (forRight fun j s => some (s.hide j)) c kMaxNodes (s.down c) s

def uncover (c : Nat) (s : SudokuSolver) : Option SudokuSolver := do
  let s ← Links.walk (fun s => s.up) (forLeft fun j s => some (s.unhide j)) c kMaxNodes (s.up c) s
  some { s with horizontal := s.horizontal.relink c }

/-! ## The search -/

/-- The loop of `get_min_column` from `cc` on, with its `break`. -/
def minColumn (s : SudokuSolver) : Nat → Nat → Int → Nat → Option Nat
  | 0, _, _, _ => none
  | fuel + 1, c, minSize, cc =>
    if cc = s.root_ then some c
    else if s.size cc < minSize then
      if s.size cc ≤ 1 then some cc else minColumn s fuel cc (s.size cc) (s.right cc)
    else minColumn s fuel c minSize (s.right cc)

def getMinColumn (s : SudokuSolver) : Option Nat :=
  let c := s.right s.root_
  if 1 < s.size c then s.minColumn kMaxNodes c (s.size c) (s.right c) else some c

/-- The loop of `solve` that reads a cell and its value off a row. -/
def readRow (s : SudokuSolver) : Nat → Nat → Option Nat → Option Nat → Option (Nat × Nat)
  | 0, _, _, _ => none
  | fuel + 1, n, cell, val =>
    match cell, val with
    | some cell, some val => some (cell, val)
    | cell, val =>
      if s.name n < 100 then readRow s fuel (s.right n) (some (s.name n)) val
      else readRow s fuel (s.right n) cell (some (s.name n % 10))

def writeRow (s : SudokuSolver) (n : Nat) : Option SudokuSolver := do
  let (cell, val) ← s.readRow kMaxNodes n none none
  some { s with inout_ := Function.update s.inout_ cell val }

/-- The loop of `solve` along the column `col`, from `row` on. -/
def tryRows (solve : SudokuSolver → Option (Bool × SudokuSolver)) (col : Nat) :
    Nat → Nat → SudokuSolver → Option (Bool × SudokuSolver)
  | 0, _, _ => none
  | fuel + 1, row, s =>
    if row = col then do
      let s ← s.uncover col
      some (false, s)
    else do
      let s := { s with stack_ := s.stack_ ++ [row] }
      let s ← s.forRight (fun j s => s.cover (s.col j)) row
      let (solved, s) ← solve s
      if solved then some (true, s)
      else do
        let s := { s with stack_ := s.stack_.dropLast }
        let s ← s.forLeft (fun j s => s.uncover (s.col j)) row
        tryRows solve col fuel (s.down row) s

/-- `solve`, to a depth of `fuel`. -/
def solve : Nat → SudokuSolver → Option (Bool × SudokuSolver)
  | 0, _ => none
  | fuel + 1, s =>
    if s.left s.root_ = s.root_ then do
      let s ← s.stack_.foldlM writeRow s
      some (true, s)
    else do
      let col ← s.getMinColumn
      let s ← s.cover col
      tryRows (solve fuel) col kMaxNodes (s.down col) s

end SudokuSolver

/-- `puzzle[i] - '0'`, where a `char` has a sign. -/
def boardValue (b : UInt8) : Int := b.toInt8.toInt - (charByte '0').toNat

def solveSudoku (memory : Nodes) (puzzle : StringPiece) : Option (List UInt8) := do
  assert (puzzle.size = kCells)
  let text ← load puzzle.data 0 kCells
  let board := fun i => boardValue (text.getD i 0)
  if ∀ i < kCells, 0 ≤ board i ∧ board i ≤ 9 then do
    let s ← SudokuSolver.create memory board
    let (solved, s) ← s.solve kMaxNodes
    if solved then
      some ((List.range kCells).map fun i => UInt8.ofNat (s.inout_ i + (charByte '0').toNat).toNat)
    else some kNoSolution
  else some kNoSolution

end Cnet.Examples.Sudoku
