import Cnet.Support.ExactCover
import Cnet.Examples.Sudoku.SudokuSolver

/-!
# Columns that are covered

What is open in the matrix follows from the columns that are still headed: the nodes in the
rows that need no other columns. A column is covered by taking the rows that need it out of
the other columns, and `uncover` puts everything back where it was.
-/

namespace Cnet.Examples.Sudoku

open Cnet.Support

/-- The matrix as it was built: the columns with their nodes, and the other nodes of the row
of a node, from there to the right. -/
structure Matrix where
  root : Nat
  heads : List Nat
  nodes : Nat → List Nat
  others : Nat → List Nat
  col : Nat → Nat
  col_root : col root = root
  col_head : ∀ d ∈ heads, col d = d
  root_notMem : root ∉ heads
  col_node : ∀ d ∈ heads, ∀ x ∈ nodes d, col x = d ∧ x ≠ d
  row_node : ∀ d ∈ heads, ∀ x ∈ nodes d, ∀ j ∈ others x, col j ∈ heads ∧ j ∈ nodes (col j)
  row_perm : ∀ d ∈ heads, ∀ x ∈ nodes d, ∀ j ∈ others x, (j :: others j).Perm (x :: others x)
  row_nodup : ∀ d ∈ heads, ∀ x ∈ nodes d, ((x :: others x).map col).Nodup
  heads_length : heads.length < kMaxNodes
  nodes_length : ∀ d ∈ heads, (nodes d).length < kMaxNodes
  others_length : ∀ d ∈ heads, ∀ x ∈ nodes d, (others x).length + 1 < kMaxNodes

namespace Matrix

variable (M : Matrix)

/-- The columns of the row that a node is in. -/
def cols (x : Nat) : List Nat := (x :: M.others x).map M.col

def IsNode (x : Nat) : Prop := M.col x ∈ M.heads ∧ x ∈ M.nodes (M.col x)

/-- The nodes of the column whose rows need only the columns `A`. -/
def opened (A : List Nat) (d : Nat) : List Nat := (M.nodes d).filter fun x => ∀ c ∈ M.cols x, c ∈ A

/-- The nodes that leave their columns when `c` is covered. -/
def hidden (A : List Nat) (c : Nat) : List Nat := (M.opened A c).flatMap M.others

variable {M} {A : List Nat} {c d x y j : Nat}

theorem isNode_of_mem (hd : d ∈ M.heads) (hx : x ∈ M.nodes d) : M.IsNode x := by
  have hcol := (M.col_node d hd x hx).1
  exact ⟨hcol.symm ▸ hd, hcol.symm ▸ hx⟩

theorem IsNode.others (hx : M.IsNode x) (hj : j ∈ M.others x) : M.IsNode j :=
  M.row_node _ hx.1 x hx.2 j hj

theorem IsNode.perm (hx : M.IsNode x) (hj : j ∈ M.others x) :
    (j :: M.others j).Perm (x :: M.others x) := M.row_perm _ hx.1 x hx.2 j hj

theorem IsNode.cols_perm (hx : M.IsNode x) (hj : j ∈ M.others x) :
    (M.cols j).Perm (M.cols x) := (hx.perm hj).map M.col

theorem IsNode.cols_nodup (hx : M.IsNode x) : (M.cols x).Nodup := M.row_nodup _ hx.1 x hx.2

theorem IsNode.others_nodup (hx : M.IsNode x) : (M.others x).Nodup :=
  (List.nodup_cons.mp hx.cols_nodup.of_map).2

theorem IsNode.others_length (hx : M.IsNode x) : (M.others x).length < kMaxNodes :=
  Nat.lt_of_succ_lt (M.others_length _ hx.1 x hx.2)

theorem IsNode.col_ne (hx : M.IsNode x) (hj : j ∈ M.others x) : M.col j ≠ M.col x := fun heq =>
  (List.nodup_cons.mp hx.cols_nodup).1 (heq ▸ List.mem_map_of_mem hj)

theorem IsNode.col_ne_self (hx : M.IsNode x) : M.col x ≠ x :=
  (M.col_node _ hx.1 x hx.2).2.symm

/-- Headers are no nodes of rows. -/
theorem IsNode.notMem_header (hx : M.IsNode x) (hA : A ⊆ M.heads) : x ∉ M.root :: A := by
  intro hmem
  refine hx.col_ne_self ?_
  rcases List.mem_cons.mp hmem with rfl | hmem
  · exact M.col_root
  · exact M.col_head x (hA hmem)

theorem mem_opened : x ∈ M.opened A d ↔ x ∈ M.nodes d ∧ ∀ c ∈ M.cols x, c ∈ A := by
  rw [opened, List.mem_filter, decide_eq_true_iff]

theorem isNode_of_opened (hA : A ⊆ M.heads) (hd : d ∈ A) (hx : x ∈ M.opened A d) : M.IsNode x :=
  isNode_of_mem (hA hd) (mem_opened.mp hx).1

theorem col_of_opened (hA : A ⊆ M.heads) (hd : d ∈ A) (hx : x ∈ M.opened A d) : M.col x = d :=
  (M.col_node d (hA hd) x (mem_opened.mp hx).1).1

theorem opened_others (hA : A ⊆ M.heads) (hd : d ∈ A) (hx : x ∈ M.opened A d)
    (hj : j ∈ M.others x) : M.col j ∈ A ∧ j ∈ M.opened A (M.col j) := by
  have hnode := isNode_of_opened hA hd hx
  have hcols := (mem_opened.mp hx).2
  refine ⟨hcols _ (List.mem_map_of_mem (List.mem_cons_of_mem _ hj)), mem_opened.mpr ⟨?_, ?_⟩⟩
  · exact (hnode.others hj).2
  · exact fun c hc => hcols c ((hnode.cols_perm hj).mem_iff.mp hc)

/-! ## Hidden nodes -/

theorem mem_hidden : j ∈ M.hidden A c ↔ ∃ x ∈ M.opened A c, j ∈ M.others x := List.mem_flatMap

/-- The nodes that are hidden are open in other columns. -/
theorem opened_of_hidden (hA : A ⊆ M.heads) (hc : c ∈ A) (hj : j ∈ M.hidden A c) :
    M.col j ∈ A ∧ M.col j ≠ c ∧ j ∈ M.opened A (M.col j) := by
  obtain ⟨x, hx, hjx⟩ := mem_hidden.mp hj
  obtain ⟨hcol, hopened⟩ := opened_others hA hc hx hjx
  refine ⟨hcol, ?_, hopened⟩
  rw [← col_of_opened hA hc hx]
  exact (isNode_of_opened hA hc hx).col_ne hjx

/-- A node that is open in another column is hidden if its row needs the column. -/
theorem mem_hidden_iff (hA : A ⊆ M.heads) (hc : c ∈ A) (hd : d ∈ A) (hne : d ≠ c)
    (hy : y ∈ M.opened A d) : y ∈ M.hidden A c ↔ c ∈ M.cols y := by
  have hnode := isNode_of_opened hA hd hy
  have hcol := col_of_opened hA hd hy
  refine ⟨fun hmem => ?_, fun hmem => ?_⟩
  · obtain ⟨x, hx, hyx⟩ := mem_hidden.mp hmem
    refine ((isNode_of_opened hA hc hx).cols_perm hyx).mem_iff.mpr ?_
    exact List.mem_map.mpr ⟨x, List.mem_cons_self, col_of_opened hA hc hx⟩
  · obtain ⟨x, hx, hxc⟩ := List.mem_map.mp hmem
    rcases List.mem_cons.mp hx with rfl | hx
    · exact absurd (hcol.symm.trans hxc) hne
    · obtain ⟨-, hopened⟩ := opened_others hA hd hy hx
      rw [hxc] at hopened
      have hmem : y ∈ x :: M.others x := (hnode.perm hx).mem_iff.mpr List.mem_cons_self
      refine mem_hidden.mpr ⟨x, hopened, (List.mem_cons.mp hmem).resolve_left ?_⟩
      rintro rfl
      exact hne (hcol.symm.trans hxc)

/-- The rows of a column have no nodes in common. -/
theorem hidden_nodup (hA : A ⊆ M.heads) (hc : c ∈ A) (hnodup : (M.opened A c).Nodup) :
    (M.hidden A c).Nodup := by
  refine nodup_flatMap_of_apart hnodup (fun x hx => (isNode_of_opened hA hc hx).others_nodup) ?_
  intro x hx y hy j hjx hjy
  have hnode := isNode_of_opened hA hc hx
  have hperm := (hnode.perm hjx).symm.trans ((isNode_of_opened hA hc hy).perm hjy)
  have hmem := hperm.symm.mem_iff.mp List.mem_cons_self
  refine ((List.mem_cons.mp hmem).resolve_right fun hyx => ?_).symm
  exact hnode.col_ne hyx ((col_of_opened hA hc hy).trans (col_of_opened hA hc hx).symm)

/-- The column that is covered keeps its nodes. -/
theorem filter_opened_self (hA : A ⊆ M.heads) (hc : c ∈ A) {xs : List Nat}
    (hxs : xs ⊆ M.hidden A c) : ((M.opened A c).filter fun y => y ∉ xs) = M.opened A c := by
  refine List.filter_eq_self.mpr fun y hy => decide_eq_true fun hmem => ?_
  exact (opened_of_hidden hA hc (hxs hmem)).2.1 (col_of_opened hA hc hy)

/-- The others have what is open without it. -/
theorem filter_opened (hA : A ⊆ M.heads) (hc : c ∈ A) (hd : d ∈ A) (hne : d ≠ c) :
    ((M.opened A d).filter fun y => y ∉ M.hidden A c) = M.opened (A.filter fun a => a ≠ c) d := by
  rw [opened, opened, List.filter_filter, ← opened]
  refine List.filter_congr fun y hy => ?_
  rw [Bool.eq_iff_iff, Bool.and_eq_true, decide_eq_true_iff, decide_eq_true_iff, decide_eq_true_iff]
  simp only [List.mem_filter, decide_eq_true_iff, forall_and]
  refine ⟨fun ⟨hnot, hcols⟩ => ⟨hcols, ?_⟩, fun ⟨hcols, hnot⟩ => ⟨?_, hcols⟩⟩
  · rintro a ha rfl
    exact hnot ((mem_hidden_iff hA hc hd hne (mem_opened.mpr ⟨hy, hcols⟩)).mpr ha)
  · exact fun hmem =>
      hnot c ((mem_hidden_iff hA hc hd hne (mem_opened.mpr ⟨hy, hcols⟩)).mp hmem) rfl

end Matrix

/-! ## The state of the solver -/

/-- The solver when the columns `A` are headed. -/
structure Headed (M : Matrix) (s : SudokuSolver) (A : List Nat) : Prop where
  subset : A ⊆ M.heads
  root_eq : s.root_ = M.root
  col_eq : s.col = M.col
  header : s.horizontal.Ring M.root A
  rows : ∀ x, M.IsNode x → s.horizontal.Ring x (M.others x)
  columns : s.vertical.Rings (fun d => d ∈ A) (M.opened A)
  sizes : ∀ d ∈ A, s.size d = (M.opened A d).length

namespace SudokuSolver

variable {s : SudokuSolver} {j x : Nat} {l xs : List Nat}

/-! ## One node after the other -/

theorem foldl_hide (s : SudokuSolver) (xs : List Nat) : xs.foldl hide s =
    { s with vertical := xs.foldl Links.unlink s.vertical, size := (xs.foldl hide s).size } := by
  induction xs generalizing s with
  | nil => rfl
  | cons x xs ih => exact ih (s.hide x)

theorem foldl_hide_vertical : (xs.foldl hide s).vertical = xs.foldl Links.unlink s.vertical := by
  rw [foldl_hide]

theorem foldl_hide_horizontal : (xs.foldl hide s).horizontal = s.horizontal := by
  rw [foldl_hide]

theorem foldl_hide_col : (xs.foldl hide s).col = s.col := by
  rw [foldl_hide]

/-- The nodes that a column loses. -/
theorem foldl_hide_size (s : SudokuSolver) (xs : List Nat) (d : Nat) :
    (xs.foldl hide s).size d = s.size d - (xs.filter fun j => s.col j = d).length := by
  induction xs generalizing s with
  | nil => exact (Int.sub_zero _).symm
  | cons x xs ih =>
    rw [List.foldl_cons, ih (s.hide x)]
    show Function.update s.size (s.col x) (s.size (s.col x) - 1) d -
      ((xs.filter fun j => s.col j = d).length : Int) = _
    by_cases hx : s.col x = d
    · have hfilter : ((x :: xs).filter fun j => s.col j = d)
          = x :: xs.filter fun j => s.col j = d :=
        List.filter_cons_of_pos (decide_eq_true hx)
      rw [hfilter, ← hx, Function.update_self, List.length_cons]
      omega
    · have hfilter : ((x :: xs).filter fun j => s.col j = d) = xs.filter fun j => s.col j = d :=
        List.filter_cons_of_neg (by simpa using hx)
      rw [hfilter, Function.update_of_ne (Ne.symm hx)]

theorem unhide_hide (h : s.vertical.Linked j) : (s.hide j).unhide j = s := by
  have hsize : Function.update (Function.update s.size (s.col j) (s.size (s.col j) - 1)) (s.col j)
      (Function.update s.size (s.col j) (s.size (s.col j) - 1) (s.col j) + 1) = s.size := by
    rw [Function.update_idem, Function.update_self, Int.sub_add_cancel, Function.update_eq_self]
  show { s with
    size := Function.update (Function.update s.size (s.col j) (s.size (s.col j) - 1)) (s.col j)
      (Function.update s.size (s.col j) (s.size (s.col j) - 1) (s.col j) + 1)
    vertical := (s.vertical.unlink j).relink j } = s
  rw [hsize, Links.relink_unlink h]

theorem forRight_hide (hring : s.horizontal.Ring x l) (hfuel : l.length < kMaxNodes) :
    s.forRight (fun j s => some (s.hide j)) x = some (l.foldl hide s) := by
  refine hring.walk_eq (fun p j q _ => ⟨rfl, ?_⟩) hfuel
  show (p.foldl hide s).horizontal.next j = s.horizontal.next j
  rw [foldl_hide_horizontal]

theorem forLeft_unhide (hring : s.horizontal.Ring x l) (hfuel : l.length < kMaxNodes)
    (hlinked : ∀ p j q, l = p ++ j :: q → (p.foldl hide s).vertical.Linked j) :
    (l.foldl hide s).forLeft (fun j s => some (s.unhide j)) x = some s := by
  have hstart : (l.foldl hide s).left x = s.horizontal.prev x := by
    show (l.foldl hide s).horizontal.prev x = s.horizontal.prev x
    rw [foldl_hide_horizontal]
  rw [forLeft, hstart]
  refine hring.walk_undo
    (fun p j q hl => ⟨congrArg some (unhide_hide (hlinked p j q hl)), ?_⟩) hfuel
  show (p.foldl hide s).horizontal.prev j = s.horizontal.prev j
  rw [foldl_hide_horizontal]

end SudokuSolver

namespace Headed

open SudokuSolver

variable {M : Matrix} {s : SudokuSolver} {A : List Nat} {c j x : Nat} {p q xs : List Nat}

theorem nodup (h : Headed M s A) : A.Nodup := (List.nodup_cons.mp h.header.nodup).2

theorem root_notMem (h : Headed M s A) : M.root ∉ A := (List.nodup_cons.mp h.header.nodup).1

theorem hidden_nodup (h : Headed M s A) (hc : c ∈ A) : (M.hidden A c).Nodup :=
  Matrix.hidden_nodup h.subset hc (List.nodup_cons.mp (h.columns.ring hc).nodup).2

theorem opened_length (h : Headed M s A) (hc : c ∈ A) : (M.opened A c).length < kMaxNodes :=
  Nat.lt_of_le_of_lt (List.length_filter_le _ _) (M.nodes_length c (h.subset hc))

theorem hidden_head (h : Headed M s A) (hc : c ∈ A) (hj : j ∈ M.hidden A c) :
    ∃ d, d ∈ A ∧ j ∈ M.opened A d :=
  have hopened := Matrix.opened_of_hidden h.subset hc hj
  ⟨M.col j, hopened.1, hopened.2.2⟩

/-- The rings when some of the nodes are hidden. -/
theorem rings_hide (h : Headed M s A) (hc : c ∈ A) (hxs : xs.Sublist (M.hidden A c)) :
    (xs.foldl Links.unlink s.vertical).Rings (fun d => d ∈ A)
      fun d => (M.opened A d).filter fun y => y ∉ xs :=
  h.columns.unlinkAll ((h.hidden_nodup hc).sublist hxs) fun _ hj => h.hidden_head hc (hxs.subset hj)

theorem ring_hide (h : Headed M s A) (hc : c ∈ A) (hxs : xs.Sublist (M.hidden A c)) :
    (xs.foldl Links.unlink s.vertical).Ring c (M.opened A c) := by
  have hring := (h.rings_hide hc hxs).ring hc
  rwa [Matrix.filter_opened_self h.subset hc hxs.subset] at hring

theorem linked_hide (h : Headed M s A) (hc : c ∈ A)
    (hsub : (p ++ j :: q).Sublist (M.hidden A c)) :
    (p.foldl Links.unlink s.vertical).Linked j :=
  h.columns.linked_unlinkAll ((h.hidden_nodup hc).sublist hsub) fun _ hj =>
    h.hidden_head hc (hsub.subset hj)

/-- Rows are not in the ring of the headers. -/
theorem rows_unlink (h : Headed M s A) (hc : c ∈ A) (hx : M.IsNode x) :
    (s.horizontal.unlink c).Ring x (M.others x) := by
  obtain ⟨-, hnext, hprev⟩ := h.header.linked (List.mem_cons_of_mem _ hc)
  have hnot : ∀ y ∈ x :: M.others x, y ∉ M.root :: A := by
    intro y hy
    rcases List.mem_cons.mp hy with rfl | hy
    · exact hx.notMem_header h.subset
    · exact (hx.others hy).notMem_header h.subset
  refine (h.rows x hx).congr fun y hy =>
    ⟨Links.unlink_next_of_ne ?_, Links.unlink_prev_of_ne ?_⟩
  · rintro rfl
    exact hnot _ hy hprev
  · rintro rfl
    exact hnot _ hy hnext

/-! ## Covering and uncovering -/

/-- The nodes of one more row are hidden. -/
def hideRow (M : Matrix) (s : SudokuSolver) (x : Nat) : SudokuSolver := (M.others x).foldl hide s

/-- The state after `cover`. -/
def covered (M : Matrix) (A : List Nat) (c : Nat) (s : SudokuSolver) : SudokuSolver :=
  (M.opened A c).foldl (hideRow M) { s with horizontal := s.horizontal.unlink c }

theorem foldl_hideRow (s : SudokuSolver) (l : List Nat) :
    l.foldl (hideRow M) s = (l.flatMap M.others).foldl hide s := List.foldl_flatMap.symm

theorem foldl_hideRow_vertical (s : SudokuSolver) (l : List Nat) :
    (l.foldl (hideRow M) s).vertical = (l.flatMap M.others).foldl Links.unlink s.vertical := by
  rw [foldl_hideRow, foldl_hide_vertical]

theorem foldl_hideRow_horizontal (s : SudokuSolver) (l : List Nat) :
    (l.foldl (hideRow M) s).horizontal = s.horizontal := by
  rw [foldl_hideRow, foldl_hide_horizontal]

theorem flatMap_sublist (hp : p <+: M.opened A c) :
    (p.flatMap M.others).Sublist (M.hidden A c) := by
  obtain ⟨q, hq⟩ := hp
  rw [Matrix.hidden, ← hq, List.flatMap_append]
  exact List.sublist_append_left _ _

/-- The pointers of the column as far as the loops of `cover` and `uncover` have come. -/
theorem column_agree (h : Headed M s A) (hc : c ∈ A) (hp : p <+: M.opened A c)
    (horizontal : Links Nat) (hx : x ∈ c :: M.opened A c) :
    (p.foldl (hideRow M) { s with horizontal }).down x = s.down x ∧
      (p.foldl (hideRow M) { s with horizontal }).up x = s.up x := by
  have hring := h.ring_hide hc (flatMap_sublist hp)
  have hagree := (h.columns.ring hc).agree hring hx
  rw [← foldl_hideRow_vertical { s with horizontal }] at hagree
  exact hagree

theorem cover_eq (h : Headed M s A) (hc : c ∈ A) : s.cover c = some (covered M A c s) := by
  refine (h.columns.ring hc).walk_eq (fun p x q hp => ?_) (h.opened_length hc)
  have hx : x ∈ M.opened A c := hp ▸ List.mem_append_right _ List.mem_cons_self
  have hnode := Matrix.isNode_of_opened h.subset hc hx
  refine ⟨forRight_hide ?_ hnode.others_length, ?_⟩
  · rw [foldl_hideRow_horizontal]
    exact h.rows_unlink hc hnode
  · have hprefix : p ++ [x] <+: M.opened A c := ⟨q, by rw [hp, List.append_assoc]; rfl⟩
    have hagree := (h.column_agree hc hprefix (s.horizontal.unlink c) (List.mem_cons_of_mem _ hx)).1
    rwa [List.foldl_append] at hagree

/-- `uncover` takes back what `cover` did. -/
theorem uncover_covered (h : Headed M s A) (hc : c ∈ A) :
    (covered M A c s).uncover c = some s := by
  have hstart : (covered M A c s).up c = s.vertical.prev c :=
    (h.column_agree hc List.prefix_rfl (s.horizontal.unlink c) List.mem_cons_self).2
  have hwalk : Links.walk (fun s : SudokuSolver => s.up) (forLeft fun j s => some (s.unhide j)) c
      kMaxNodes (s.vertical.prev c) (covered M A c s)
        = some { s with horizontal := s.horizontal.unlink c } := by
    refine (h.columns.ring hc).walk_undo (fun p x q hp => ⟨?_, ?_⟩) (h.opened_length hc)
    · have hx : x ∈ M.opened A c := hp ▸ List.mem_append_right _ List.mem_cons_self
      have hnode := Matrix.isNode_of_opened h.subset hc hx
      refine forLeft_unhide ?_ hnode.others_length fun p' j q' hrow => ?_
      · rw [foldl_hideRow_horizontal]
        exact h.rows_unlink hc hnode
      · have hsub : (p.flatMap M.others ++ p' ++ j :: q').Sublist (M.hidden A c) := by
          rw [Matrix.hidden, hp, List.flatMap_append, List.flatMap_cons, hrow, List.append_assoc]
          exact (List.sublist_append_left _ _).append_left _
        have hlinked := h.linked_hide hc hsub
        rwa [foldl_hide_vertical, foldl_hideRow_vertical, ← List.foldl_append]
    · have hx : x ∈ M.opened A c := hp ▸ List.mem_append_right _ List.mem_cons_self
      exact (h.column_agree hc ⟨_, hp.symm⟩ (s.horizontal.unlink c) (List.mem_cons_of_mem _ hx)).2
  have hlinked := (h.header.linked (List.mem_cons_of_mem _ hc)).1
  rw [uncover, hstart, hwalk]
  show some { s with horizontal := (s.horizontal.unlink c).relink c } = some s
  rw [Links.relink_unlink hlinked]

/-- What is left is the matrix without the column. -/
theorem headed_covered (h : Headed M s A) (hc : c ∈ A) :
    Headed M (covered M A c s) (A.filter fun a => a ≠ c) := by
  have hmem : ∀ {d}, d ∈ A.filter (fun a => a ≠ c) → d ∈ A ∧ d ≠ c := fun hd =>
    ⟨(List.mem_filter.mp hd).1, of_decide_eq_true (List.mem_filter.mp hd).2⟩
  have hfold := foldl_hide { s with horizontal := s.horizontal.unlink c } (M.hidden A c)
  have hrings := h.rings_hide hc (List.Sublist.refl _)
  rw [covered, foldl_hideRow, ← Matrix.hidden]
  refine ⟨fun d hd => h.subset (hmem hd).1, ?_, ?_, ?_, fun x hx => ?_, ?_, fun d hd => ?_⟩
  · rw [hfold]
    exact h.root_eq
  · rw [foldl_hide_col]
    exact h.col_eq
  · rw [foldl_hide_horizontal]
    exact h.header.unlink hc
  · rw [foldl_hide_horizontal]
    exact h.rows_unlink hc hx
  · rw [foldl_hide_vertical]
    refine ⟨fun {d} hd => ?_, fun {d e y} hd he hyd hye => ?_⟩
    · have hring := hrings.ring (hmem hd).1
      rwa [Matrix.filter_opened h.subset hc (hmem hd).1 (hmem hd).2] at hring
    · rw [← Matrix.filter_opened h.subset hc (hmem hd).1 (hmem hd).2] at hyd
      rw [← Matrix.filter_opened h.subset hc (hmem he).1 (hmem he).2] at hye
      exact hrings.apart (hmem hd).1 (hmem he).1 hyd hye
  · obtain ⟨hdA, hne⟩ := hmem hd
    have hperm : ((M.hidden A c).filter fun j => s.col j = d).Perm
        ((M.opened A d).filter fun y => ¬ (y ∉ M.hidden A c)) := by
      have hopened := (List.nodup_cons.mp (h.columns.ring hdA).nodup).2
      refine (List.perm_ext_iff_of_nodup ((h.hidden_nodup hc).filter _) (hopened.filter _)).mpr ?_
      intro j
      rw [List.mem_filter, List.mem_filter, decide_eq_true_iff, decide_eq_true_iff, not_not,
        h.col_eq]
      refine ⟨fun ⟨hj, hcol⟩ => ⟨?_, hj⟩, fun ⟨hj, hhidden⟩ => ⟨hhidden, ?_⟩⟩
      · exact hcol ▸ (Matrix.opened_of_hidden h.subset hc hj).2.2
      · exact Matrix.col_of_opened h.subset hdA hj
    have hlength := List.length_eq_length_filter_add (l := M.opened A d)
      fun y => decide (y ∉ M.hidden A c)
    rw [foldl_hide_size, h.sizes d hdA, hperm.length_eq,
      ← Matrix.filter_opened h.subset hc hdA hne]
    simp only [decide_not] at hlength ⊢
    omega

/-- The column itself is left alone. -/
theorem column_covered (h : Headed M s A) (hc : c ∈ A) :
    (covered M A c s).vertical.Ring c (M.opened A c) := by
  rw [covered, foldl_hideRow_vertical, ← Matrix.hidden]
  exact h.ring_hide hc (List.Sublist.refl _)

theorem covered_frame (M : Matrix) (A : List Nat) (c : Nat) (s : SudokuSolver) :
    (covered M A c s).name = s.name ∧ (covered M A c s).inout_ = s.inout_ ∧
      (covered M A c s).stack_ = s.stack_ := by
  rw [covered, foldl_hideRow, foldl_hide]
  exact ⟨rfl, rfl, rfl⟩

end Headed

end Cnet.Examples.Sudoku
