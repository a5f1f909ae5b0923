import Mathlib.Data.List.Perm.Subperm
import Cnet.Examples.Sudoku.Covering

/-!
# The search for a cover

`solve` finds a cover of the columns that are headed if there is one, and otherwise leaves the
solver as it was. The induction is on the columns: a row that is tried covers some of them.
-/

namespace Cnet.Examples.Sudoku

open Cnet.Support SudokuSolver

/-- The cell and the value that are read off the row of a node. -/
def Labelled (M : Matrix) (name : Nat → Nat) (answer : Nat → Nat × Nat) : Prop :=
  ∀ x, M.IsNode x →
    (∃ y ∈ x :: M.others x, name y < 100) ∧ (∃ y ∈ x :: M.others x, ¬ name y < 100) ∧
    ∀ y ∈ x :: M.others x,
      if name y < 100 then name y = (answer x).1 else name y % 10 = (answer x).2

/-- The board when the values are written into their cells. -/
def written (l : List (Nat × Nat)) (board : Nat → Int) : Nat → Int :=
  l.foldl (fun board p => Function.update board p.1 p.2) board

/-- What a search among the columns `A` comes to. -/
def Searched (M : Matrix) (answer : Nat → Nat × Nat) (A : List Nat) (s : SudokuSolver)
    (r : Option (Bool × SudokuSolver)) : Prop :=
  (∃ picks s', r = some (true, s') ∧ (∀ x ∈ picks, M.IsNode x) ∧ Covers M.cols picks A ∧
    s'.inout_ = written ((s.stack_ ++ picks).map answer) s.inout_) ∨
  (r = some (false, s) ∧ ¬ ∃ picks, (∀ x ∈ picks, M.IsNode x) ∧ Covers M.cols picks A)

variable {M : Matrix} {answer : Nat → Nat × Nat} {s : SudokuSolver} {A : List Nat}
  {a c d x : Nat} {l p q : List Nat} {fuel : Nat}

/-! ## The answer of a row -/

theorem readRow_name {cell val : Option Nat} (h : cell = none ∨ val = none) (fuel n : Nat) :
    s.readRow (fuel + 1) n cell val =
      if s.name n < 100 then s.readRow fuel (s.right n) (some (s.name n)) val
      else s.readRow fuel (s.right n) cell (some (s.name n % 10)) := by
  rcases h with rfl | rfl
  · rfl
  · cases cell with
    | none => rfl
    | some cell => rfl

/-- The rest of a row, when the cell or the value may have been found already. -/
theorem readRow_path {b : Nat} {r : Nat × Nat} {cell val : Option Nat}
    (hpath : s.horizontal.Path a l b)
    (hcell : cell = some r.1 ∨ cell = none ∧ ∃ y ∈ l, s.name y < 100)
    (hval : val = some r.2 ∨ val = none ∧ ∃ y ∈ l, ¬ s.name y < 100)
    (hl : ∀ y ∈ l, if s.name y < 100 then s.name y = r.1 else s.name y % 10 = r.2)
    (hfuel : l.length < fuel) : s.readRow fuel (s.right a) cell val = some r := by
  induction l generalizing a cell val fuel with
  | nil =>
    obtain ⟨fuel, rfl⟩ := Nat.exists_eq_succ_of_ne_zero (Nat.ne_zero_of_lt hfuel)
    obtain rfl := hcell.resolve_right fun ⟨_, y, hy, _⟩ => List.not_mem_nil hy
    obtain rfl := hval.resolve_right fun ⟨_, y, hy, _⟩ => List.not_mem_nil hy
    rfl
  | cons x l ih =>
    obtain ⟨fuel, rfl⟩ := Nat.exists_eq_succ_of_ne_zero (Nat.ne_zero_of_lt hfuel)
    obtain ⟨hax, -, hrest⟩ := hpath
    have hright : s.right a = x := hax
    obtain ⟨hx, hl⟩ := List.forall_mem_cons.mp hl
    have hfuel := Nat.lt_of_succ_lt_succ hfuel
    rw [hright]
    by_cases hboth : cell = some r.1 ∧ val = some r.2
    · rw [hboth.1, hboth.2]
      rfl
    · have hnone : cell = none ∨ val = none := by
        rcases hcell with hcell | hcell
        · exact .inr (hval.resolve_left fun hval => hboth ⟨hcell, hval⟩).1
        · exact .inl hcell.1
      rw [readRow_name hnone]
      by_cases hname : s.name x < 100
      · rw [if_pos hname] at hx ⊢
        refine ih hrest (.inl (congrArg some hx)) (hval.imp_right fun ⟨hval, y, hy, hvaly⟩ => ?_) hl
          hfuel
        refine ⟨hval, y, (List.mem_cons.mp hy).resolve_left ?_, hvaly⟩
        rintro rfl
        exact hvaly hname
      · rw [if_neg hname] at hx ⊢
        refine ih hrest (hcell.imp_right fun ⟨hcell, y, hy, hcelly⟩ => ?_)
          (.inl (congrArg some hx)) hl hfuel
        refine ⟨hcell, y, (List.mem_cons.mp hy).resolve_left ?_, hcelly⟩
        rintro rfl
        exact hname hcelly

theorem readRow_eq (h : Headed M s A) (hname : Labelled M s.name answer) (hx : M.IsNode x) :
    s.readRow kMaxNodes x none none = some (answer x) := by
  obtain ⟨⟨y, hy, hcell⟩, ⟨z, hz, hval⟩, hall⟩ := hname x hx
  obtain ⟨hxname, hall⟩ := List.forall_mem_cons.mp hall
  have hpath := (h.rows x hx).path
  have hfuel := M.others_length _ hx.1 x hx.2
  have hstep : kMaxNodes = 3240 + 1 := rfl
  rw [hstep] at hfuel ⊢
  rw [readRow_name (.inl rfl)]
  by_cases hname : s.name x < 100
  · rw [if_pos hname] at hxname ⊢
    refine readRow_path hpath (.inl (congrArg some hxname)) (.inr ⟨rfl, z, ?_, hval⟩) hall
      (Nat.lt_of_succ_lt_succ hfuel)
    refine (List.mem_cons.mp hz).resolve_left ?_
    rintro rfl
    exact hval hname
  · rw [if_neg hname] at hxname ⊢
    refine readRow_path hpath (.inr ⟨rfl, y, ?_, hcell⟩) (.inl (congrArg some hxname)) hall
      (Nat.lt_of_succ_lt_succ hfuel)
    refine (List.mem_cons.mp hy).resolve_left ?_
    rintro rfl
    exact hname hcell

theorem readRow_inout (inout_ : Nat → Int) (fuel n : Nat) (cell val : Option Nat) :
    { s with inout_ }.readRow fuel n cell val = s.readRow fuel n cell val := by
  induction fuel generalizing n cell val with
  | zero => rfl
  | succ fuel ih =>
    by_cases hnone : cell = none ∨ val = none
    · rw [readRow_name hnone, readRow_name hnone, ih, ih]
    · obtain ⟨hcell, hval⟩ := not_or.mp hnone
      obtain ⟨cell, rfl⟩ := Option.ne_none_iff_exists'.mp hcell
      obtain ⟨val, rfl⟩ := Option.ne_none_iff_exists'.mp hval
      rfl

/-- The rows of the stack are written into the board. -/
theorem foldlM_writeRow (hread : ∀ x ∈ l, s.readRow kMaxNodes x none none = some (answer x)) :
    l.foldlM writeRow s = some { s with inout_ := written (l.map answer) s.inout_ } := by
  induction l generalizing s with
  | nil => rfl
  | cons x l ih =>
    obtain ⟨hx, hl⟩ := List.forall_mem_cons.mp hread
    have hwrite : s.writeRow x = some
        { s with inout_ := Function.update s.inout_ (answer x).1 (answer x).2 } := by
      rw [writeRow, hx]
      rfl
    rw [List.foldlM_cons, hwrite]
    refine ih fun y hy => ?_
    rw [readRow_inout]
    exact hl y hy

/-! ## The column that is chosen -/

theorem minColumn_path {m : Int} (hpath : s.horizontal.Path a l s.root_) (hroot : s.root_ ∉ l)
    (hm : s.size c = m) (hfuel : l.length < fuel) :
    ∃ c', s.minColumn fuel c m (s.right a) = some c' ∧ c' ∈ c :: l ∧
      (s.size c' ≤ 1 ∨ ∀ d ∈ c :: l, s.size c' ≤ s.size d) := by
  induction l generalizing a c m fuel with
  | nil =>
    obtain ⟨fuel, rfl⟩ := Nat.exists_eq_succ_of_ne_zero (Nat.ne_zero_of_lt hfuel)
    refine ⟨c, if_pos hpath.1, List.mem_cons_self, .inr fun d hd => ?_⟩
    exact List.mem_singleton.mp hd ▸ Int.le_refl _
  | cons x l ih =>
    obtain ⟨fuel, rfl⟩ := Nat.exists_eq_succ_of_ne_zero (Nat.ne_zero_of_lt hfuel)
    obtain ⟨hax, -, hrest⟩ := hpath
    rw [List.mem_cons, not_or] at hroot
    have hright : s.right a = x := hax
    have hfuel := Nat.lt_of_succ_lt_succ hfuel
    rw [hright, minColumn, if_neg (Ne.symm hroot.1)]
    by_cases hlt : s.size x < m
    · rw [if_pos hlt]
      by_cases hone : s.size x ≤ 1
      · exact ⟨x, if_pos hone, List.mem_cons_of_mem _ List.mem_cons_self, .inl hone⟩
      · rw [if_neg hone]
        obtain ⟨c', hc', hmem, hmin⟩ := ih (c := x) hrest hroot.2 rfl hfuel
        refine ⟨c', hc', List.mem_cons_of_mem _ hmem, hmin.imp_right fun hmin => ?_⟩
        refine List.forall_mem_cons.mpr ⟨?_, hmin⟩
        exact Int.le_trans (hmin x List.mem_cons_self) (hm ▸ Int.le_of_lt hlt)
    · rw [if_neg hlt]
      obtain ⟨c', hc', hmem, hmin⟩ := ih hrest hroot.2 hm hfuel
      obtain hmem := List.mem_cons.mp hmem
      refine ⟨c', hc', List.mem_cons.mpr (hmem.imp_right (List.mem_cons_of_mem _)),
        hmin.imp_right fun hmin => ?_⟩
      obtain ⟨hc, hl⟩ := List.forall_mem_cons.mp hmin
      refine List.forall_mem_cons.mpr ⟨hc, List.forall_mem_cons.mpr ⟨?_, hl⟩⟩
      exact Int.le_trans hc (hm ▸ Int.not_lt.mp hlt)

/-- `get_min_column` comes to a column with the fewest nodes, or to one that has one at most. -/
theorem getMinColumn_eq (h : Headed M s A) (hA : A ≠ []) :
    ∃ c, s.getMinColumn = some c ∧ c ∈ A ∧ (s.size c ≤ 1 ∨ ∀ d ∈ A, s.size c ≤ s.size d) := by
  cases A with
  | nil => exact absurd rfl hA
  | cons c A =>
    obtain ⟨hright, -, hpath⟩ := h.header.path
    have hright : s.right s.root_ = c := h.root_eq ▸ hright
    have hfuel : A.length < kMaxNodes := by
      have hle := (List.subperm_of_subset h.nodup h.subset).length_le
      exact Nat.lt_trans (Nat.lt_of_succ_le hle) M.heads_length
    rw [getMinColumn, hright]
    by_cases hsize : 1 < s.size c
    · rw [← h.root_eq] at hpath
      have hroot : s.root_ ∉ A := fun hmem =>
        h.root_notMem (h.root_eq ▸ List.mem_cons_of_mem _ hmem)
      simp only [if_pos hsize]
      exact minColumn_path hpath hroot rfl hfuel
    · simp only [if_neg hsize]
      exact ⟨c, rfl, List.mem_cons_self, .inl (Int.not_lt.mp hsize)⟩

/-! ## The stack makes no difference to the matrix -/

/-- The solver with another stack. -/
def withStack (k : List Nat) (s : SudokuSolver) : SudokuSolver := { s with stack_ := k }

section

variable {k : List Nat} {body : Nat → SudokuSolver → Option SudokuSolver}

theorem forLeft_stack (hbody : ∀ j s, body j (withStack k s) = (body j s).map (withStack k)) :
    (withStack k s).forLeft body x = (s.forLeft body x).map (withStack k) :=
  Links.walk_map (fun _ _ => rfl) hbody

theorem uncover_stack : (withStack k s).uncover c = (s.uncover c).map (withStack k) := by
  have hwalk : Links.walk (fun s : SudokuSolver => s.up) (forLeft fun j s => some (s.unhide j)) c
      kMaxNodes ((withStack k s).up c) (withStack k s)
        = (Links.walk (fun s : SudokuSolver => s.up) (forLeft fun j s => some (s.unhide j)) c
            kMaxNodes (s.up c) s).map (withStack k) :=
    Links.walk_map (fun _ _ => rfl) fun _ _ => forLeft_stack fun _ _ => rfl
  show Option.bind _ _ = (Option.bind _ _).map _
  rw [hwalk, Option.bind_map, Option.map_bind]
  rfl

end

theorem Headed.withStack (h : Headed M s A) (k : List Nat) : Headed M (withStack k s) A :=
  ⟨h.subset, h.root_eq, h.col_eq, h.header, h.rows, h.columns, h.sizes⟩

/-! ## The columns of a row -/

/-- `cover` where it comes to an end. -/
def coverCol (s : SudokuSolver) (j : Nat) : SudokuSolver := (s.cover (s.col j)).getD s

theorem coverCol_eq (h : Headed M s A) {j : Nat} (hj : M.col j ∈ A) :
    s.cover (s.col j) = some (coverCol s j) ∧ coverCol s j = Headed.covered M A (M.col j) s := by
  have hcover : s.cover (s.col j) = some (Headed.covered M A (M.col j) s) := by
    rw [h.col_eq]
    exact h.cover_eq hj
  rw [coverCol, hcover]
  exact ⟨rfl, rfl⟩

/-- The columns of a row are covered one after the other. -/
theorem headed_coverCols (h : Headed M s A) (hcols : ∀ j ∈ l, M.col j ∈ A)
    (hnodup : (l.map M.col).Nodup) :
    Headed M (l.foldl coverCol s) (A.filter fun a => a ∉ l.map M.col) := by
  induction l generalizing s A with
  | nil =>
    have hfilter : (A.filter fun a => a ∉ [].map M.col) = A :=
      List.filter_eq_self.mpr fun a _ => decide_eq_true List.not_mem_nil
    rw [hfilter]
    exact h
  | cons j l ih =>
    obtain ⟨hj, hl⟩ := List.forall_mem_cons.mp hcols
    obtain ⟨hnot, hnodup⟩ := List.nodup_cons.mp hnodup
    have hstep := h.headed_covered hj
    rw [← (coverCol_eq h hj).2] at hstep
    have hrest := ih hstep (fun y hy => List.mem_filter.mpr ⟨hl y hy, decide_eq_true ?_⟩) hnodup
    · simpa only [List.foldl_cons, List.map_cons, List.filter_filter, List.mem_cons, not_or,
        Bool.decide_and, Bool.and_comm, ne_eq] using hrest
    · intro heq
      exact hnot (heq ▸ List.mem_map_of_mem hy)

theorem coverCol_frame (h : Headed M s A) {j : Nat} (hj : M.col j ∈ A) :
    (coverCol s j).name = s.name ∧ (coverCol s j).inout_ = s.inout_ ∧
      (coverCol s j).stack_ = s.stack_ := by
  rw [(coverCol_eq h hj).2]
  exact Headed.covered_frame M A (M.col j) s

theorem coverCols_frame (h : Headed M s A) (hcols : ∀ j ∈ l, M.col j ∈ A)
    (hnodup : (l.map M.col).Nodup) :
    (l.foldl coverCol s).name = s.name ∧ (l.foldl coverCol s).inout_ = s.inout_ ∧
      (l.foldl coverCol s).stack_ = s.stack_ := by
  induction l using List.reverseRecOn with
  | nil => exact ⟨rfl, rfl, rfl⟩
  | append_singleton l j ih =>
    obtain ⟨hl, hj⟩ := List.forall_mem_append.mp hcols
    rw [List.map_append, List.nodup_append] at hnodup
    have hnot : M.col j ∉ l.map M.col := fun hmem =>
      hnodup.2.2 _ hmem _ (List.mem_map_of_mem (List.mem_singleton_self j)) rfl
    have hframe := coverCol_frame (headed_coverCols h hl hnodup.1)
      (List.mem_filter.mpr ⟨hj j (List.mem_singleton_self j), decide_eq_true hnot⟩)
    obtain ⟨hname, hinout, hstack⟩ := ih hl hnodup.1
    rw [List.foldl_append, List.foldl_cons, List.foldl_nil, hframe.1, hframe.2.1, hframe.2.2]
    exact ⟨hname, hinout, hstack⟩

/-- All columns of a row but the one that is covered already. -/
theorem forRight_cover (h : Headed M s A) (hx : M.IsNode x)
    (hcols : ∀ j ∈ M.others x, M.col j ∈ A) :
    ∃ s', s.forRight (fun j s => s.cover (s.col j)) x = some s' ∧
      Headed M s' (A.filter fun a => a ∉ (M.others x).map M.col) ∧
      s'.forLeft (fun j s => s.uncover (s.col j)) x = some s ∧
      s'.name = s.name ∧ s'.inout_ = s.inout_ ∧ s'.stack_ = s.stack_ := by
  have hnodup : ((M.others x).map M.col).Nodup := (List.nodup_cons.mp hx.cols_nodup).2
  have hpart : ∀ p, p <+: M.others x →
      Headed M (p.foldl coverCol s) (A.filter fun a => a ∉ p.map M.col) := fun p hp =>
    headed_coverCols h (fun j hj => hcols j (hp.subset hj)) (hnodup.sublist (hp.sublist.map M.col))
  have hagree : ∀ p, p <+: M.others x → ∀ y ∈ x :: M.others x,
      (p.foldl coverCol s).right y = s.right y ∧ (p.foldl coverCol s).left y = s.left y :=
    fun p hp _ hy => (h.rows x hx).agree ((hpart p hp).rows x hx) hy
  have hsplit : ∀ p j q, M.others x = p ++ j :: q →
      p <+: M.others x ∧ p ++ [j] <+: M.others x ∧ j ∈ x :: M.others x ∧
        M.col j ∈ A.filter fun a => a ∉ p.map M.col := by
    intro p j q hl
    have hj : j ∈ M.others x := hl ▸ List.mem_append_right _ List.mem_cons_self
    refine ⟨⟨_, hl.symm⟩, ⟨q, by rw [hl, List.append_assoc]; rfl⟩, List.mem_cons_of_mem _ hj,
      List.mem_filter.mpr ⟨hcols j hj, decide_eq_true fun hmem => ?_⟩⟩
    rw [hl, List.map_append, List.nodup_append] at hnodup
    exact hnodup.2.2 _ hmem _ (List.mem_map_of_mem List.mem_cons_self) rfl
  refine ⟨(M.others x).foldl coverCol s, ?_, hpart _ List.prefix_rfl, ?_,
    coverCols_frame h hcols hnodup⟩
  · refine (h.rows x hx).walk_eq (fun p j q hl => ?_) hx.others_length
    obtain ⟨hp, hpj, hj, hcol⟩ := hsplit p j q hl
    have hnext := (hagree _ hpj j hj).1
    rw [List.foldl_append] at hnext
    exact ⟨(coverCol_eq (hpart p hp) hcol).1, hnext⟩
  · have hstart := (hagree _ List.prefix_rfl x List.mem_cons_self).2
    rw [forLeft, hstart]
    refine (h.rows x hx).walk_undo (fun p j q hl => ?_) hx.others_length
    obtain ⟨hp, -, hj, hcol⟩ := hsplit p j q hl
    have hheaded := hpart p hp
    obtain ⟨-, hcovered⟩ := coverCol_eq hheaded hcol
    refine ⟨?_, (hagree _ hp j hj).2⟩
    have hcoleq : (coverCol (p.foldl coverCol s) j).col = M.col := by
      rw [hcovered]
      exact (hheaded.headed_covered hcol).col_eq
    rw [hcoleq, hcovered]
    exact hheaded.uncover_covered hcol

/-! ## Trying rows -/

theorem filter_cols (hc : M.col x = c) : ((A.filter fun a => a ≠ c).filter fun a =>
    a ∉ (M.others x).map M.col) = A.filter fun a => a ∉ M.cols x := by
  rw [List.filter_filter]
  refine List.filter_congr fun a _ => ?_
  rw [Matrix.cols, List.map_cons, hc, Bool.eq_iff_iff, Bool.and_eq_true, decide_eq_true_iff,
    decide_eq_true_iff, decide_eq_true_iff, List.mem_cons, not_or, and_comm]

/-- A search that goes right from the columns that are left when a row is taken. -/
def Searches (M : Matrix) (answer : Nat → Nat × Nat)
    (search : SudokuSolver → Option (Bool × SudokuSolver)) (A : List Nat) : Prop :=
  ∀ s, Headed M s A → Labelled M s.name answer → (∀ x ∈ s.stack_, M.IsNode x) →
    Searched M answer A s (search s)

/-- One row of a column: either its search is the result, or the loop goes on as if nothing had
been done. -/
theorem tryRows_row {search : SudokuSolver → Option (Bool × SudokuSolver)} {s₁ : SudokuSolver}
    (h : Headed M s₁ (A.filter fun a => a ≠ c)) (hA : A.Nodup) (hsub : A ⊆ M.heads) (hc : c ∈ A)
    (hname : Labelled M s₁.name answer) (hstack : ∀ x ∈ s₁.stack_, M.IsNode x)
    (hx : x ∈ M.opened A c) (hne : x ≠ c)
    (hsearch : Searches M answer search (A.filter fun a => a ∉ M.cols x)) :
    (∃ picks s', (∀ fuel, tryRows search c (fuel + 1) x s₁ = some (true, s')) ∧
      (∀ x ∈ picks, M.IsNode x) ∧ Covers M.cols picks A ∧
      s'.inout_ = written ((s₁.stack_ ++ picks).map answer) s₁.inout_) ∨
    (∀ fuel, tryRows search c (fuel + 1) x s₁ = tryRows search c fuel (s₁.down x) s₁) ∧
      ¬ ∃ picks, (∀ y ∈ picks, M.IsNode y) ∧
        Covers M.cols picks (A.filter fun a => a ∉ M.cols x) := by
  have hnode := Matrix.isNode_of_opened hsub hc hx
  have hcol := Matrix.col_of_opened hsub hc hx
  have hcols : M.cols x ⊆ A := (Matrix.mem_opened.mp hx).2
  have hpush := h.withStack (s₁.stack_ ++ [x])
  obtain ⟨s₃, hforRight, hheaded, hforLeft, hname₃, hinout, hstack₃⟩ :=
    forRight_cover hpush hnode fun j hj => by
      refine List.mem_filter.mpr ⟨hcols (List.mem_map_of_mem (List.mem_cons_of_mem _ hj)), ?_⟩
      exact decide_eq_true (hcol ▸ hnode.col_ne hj)
  rw [filter_cols hcol] at hheaded
  have hnodes : ∀ y ∈ s₃.stack_, M.IsNode y := by
    rw [hstack₃]
    exact List.forall_mem_append.mpr ⟨hstack, List.forall_mem_singleton.mpr hnode⟩
  have hfound := hsearch s₃ hheaded (hname₃.symm ▸ hname) hnodes
  have hstep : ∀ fuel, tryRows search c (fuel + 1) x s₁ = (search s₃).bind fun r =>
      if r.1 then some (true, r.2)
      else (forLeft (fun j s => s.uncover (s.col j)) x (withStack r.2.stack_.dropLast r.2)).bind
        fun s => tryRows search c fuel (s.down x) s := by
    intro fuel
    rw [tryRows, if_neg hne]
    exact congrArg (Option.bind · _) hforRight
  rcases hfound with ⟨picks, s', hs', hpicks, hcovers, hboard⟩ | ⟨hs', hnone⟩
  · refine .inl ⟨x :: picks, s', fun fuel => ?_, List.forall_mem_cons.mpr ⟨hnode, hpicks⟩,
      Covers.cons hA hnode.cols_nodup hcols hcovers, ?_⟩
    · rw [hstep, hs']
      rfl
    · rw [hboard, hstack₃, hinout]
      show written ((s₁.stack_ ++ [x] ++ picks).map answer) s₁.inout_ = _
      rw [List.append_assoc, List.singleton_append]
  · refine .inr ⟨fun fuel => ?_, hnone⟩
    have hpop : withStack s₃.stack_.dropLast s₃ = withStack s₁.stack_ s₃ := by
      rw [hstack₃]
      exact congrArg (withStack · s₃) List.dropLast_concat
    have hback : (withStack s₁.stack_ s₃).forLeft (fun j s => s.uncover (s.col j)) x
        = (s₃.forLeft (fun j s => s.uncover (s.col j)) x).map (withStack s₁.stack_) :=
      forLeft_stack fun _ _ => uncover_stack
    rw [hforLeft] at hback
    rw [hstep, hs', Option.bind_some]
    show (forLeft _ x (withStack s₃.stack_.dropLast s₃)).bind _ = _
    rw [hpop, hback]
    rfl

theorem tryRows_path {search : SudokuSolver → Option (Bool × SudokuSolver)}
    (h : Headed M s A) (hc : c ∈ A) (hname : Labelled M s.name answer)
    (hstack : ∀ x ∈ s.stack_, M.IsNode x)
    (hsearch : ∀ x ∈ M.opened A c, Searches M answer search (A.filter fun a => a ∉ M.cols x))
    (hsub : l ⊆ M.opened A c) (hnot : c ∉ l) (hpath : (Headed.covered M A c s).vertical.Path a l c)
    (hfuel : l.length < fuel) :
    (∃ picks s', tryRows search c fuel ((Headed.covered M A c s).down a) (Headed.covered M A c s)
        = some (true, s') ∧ (∀ x ∈ picks, M.IsNode x) ∧ Covers M.cols picks A ∧
      s'.inout_ = written ((s.stack_ ++ picks).map answer) s.inout_) ∨
    tryRows search c fuel ((Headed.covered M A c s).down a) (Headed.covered M A c s)
        = some (false, s) ∧
      ∀ x ∈ l, ¬ ∃ picks, (∀ y ∈ picks, M.IsNode y) ∧
        Covers M.cols picks (A.filter fun a => a ∉ M.cols x) := by
  obtain ⟨hnameEq, hinoutEq, hstackEq⟩ := Headed.covered_frame M A c s
  induction l generalizing a fuel with
  | nil =>
    obtain ⟨fuel, rfl⟩ := Nat.exists_eq_succ_of_ne_zero (Nat.ne_zero_of_lt hfuel)
    have hdown : (Headed.covered M A c s).down a = c := hpath.1
    refine .inr ⟨?_, fun x hx => absurd hx List.not_mem_nil⟩
    rw [tryRows, if_pos hdown, h.uncover_covered hc]
    rfl
  | cons x l ih =>
    obtain ⟨fuel, rfl⟩ := Nat.exists_eq_succ_of_ne_zero (Nat.ne_zero_of_lt hfuel)
    obtain ⟨hdown, -, hrest⟩ := hpath
    have hdown : (Headed.covered M A c s).down a = x := hdown
    obtain ⟨hx, hl⟩ := List.cons_subset.mp hsub
    rw [List.mem_cons, not_or] at hnot
    have hrow := tryRows_row (h.headed_covered hc) h.nodup h.subset hc (hnameEq.symm ▸ hname)
      (hstackEq.symm ▸ hstack) hx (Ne.symm hnot.1) (hsearch x hx)
    rw [hdown]
    rcases hrow with ⟨picks, s', hs', hpicks, hcovers, hboard⟩ | ⟨hnext, hnone⟩
    · rw [hstackEq, hinoutEq] at hboard
      exact .inl ⟨picks, s', hs' fuel, hpicks, hcovers, hboard⟩
    · rw [hnext fuel]
      refine (ih hl hnot.2 hrest (Nat.lt_of_succ_lt_succ hfuel)).imp_right fun ⟨hfalse, hall⟩ => ?_
      exact ⟨hfalse, List.forall_mem_cons.mpr ⟨hnone, hall⟩⟩

/-- A cover needs one of the rows that are open in a column. -/
theorem exists_opened (h : Headed M s A) (hc : c ∈ A) {picks : List Nat}
    (hpicks : ∀ x ∈ picks, M.IsNode x) (hcovers : Covers M.cols picks A) :
    ∃ x ∈ M.opened A c, ∃ picks, (∀ y ∈ picks, M.IsNode y) ∧
      Covers M.cols picks (A.filter fun a => a ∉ M.cols x) := by
  obtain ⟨r, hr, hcr, hsub, hrest⟩ := hcovers.branch h.nodup hc
  have hnode := hpicks r hr
  obtain ⟨x, hx, hcol⟩ := List.mem_map.mp hcr
  have hperm : (M.cols x).Perm (M.cols r) ∧ M.IsNode x := by
    rcases List.mem_cons.mp hx with rfl | hx
    · exact ⟨List.Perm.refl _, hnode⟩
    · exact ⟨hnode.cols_perm hx, hnode.others hx⟩
  refine ⟨x, Matrix.mem_opened.mpr ⟨hcol ▸ hperm.2.2, fun a ha => hsub (hperm.1.mem_iff.mp ha)⟩,
    picks.erase r, fun y hy => hpicks y (List.mem_of_mem_erase hy), ?_⟩
  have hfilter : (A.filter fun a => a ∉ M.cols x) = A.filter fun a => a ∉ M.cols r :=
    List.filter_congr fun a _ => decide_eq_decide.mpr (not_congr hperm.1.mem_iff)
  rw [hfilter]
  exact hrest

/-- The whole search. -/
theorem searches_solve (M : Matrix) (answer : Nat → Nat × Nat) (hfuel : A.length < fuel) :
    Searches M answer (solve fuel) A := by
  induction fuel generalizing A with
  | zero => exact absurd hfuel (Nat.not_lt_zero _)
  | succ fuel ih =>
    intro s h hname hstack
    by_cases hA : A = []
    · subst hA
      have hleft : s.left s.root_ = s.root_ := h.root_eq ▸ h.header.path.2
      refine .inl ⟨[], { s with inout_ := written (s.stack_.map answer) s.inout_ }, ?_,
        fun x hx => absurd hx List.not_mem_nil, Covers.nil, ?_⟩
      · rw [solve, if_pos hleft, foldlM_writeRow fun x hx => readRow_eq h hname (hstack x hx)]
        rfl
      · rw [List.append_nil]
    · have hleft : s.left s.root_ ≠ s.root_ := h.root_eq ▸ h.header.prev_ne hA
      obtain ⟨c, hmin, hc, -⟩ := getMinColumn_eq h hA
      have hcolumn := h.column_covered hc
      have hlt : ∀ x ∈ M.opened A c, (A.filter fun a => a ∉ M.cols x).length < fuel := by
        intro x hx
        have hcol := Matrix.col_of_opened h.subset hc hx
        have hcx : c ∈ M.cols x := hcol ▸ List.mem_cons_self
        refine Nat.lt_of_lt_of_le (List.length_filter_lt_length_iff_exists.mpr ⟨c, hc, ?_⟩)
          (Nat.le_of_lt_succ hfuel)
        exact fun hnot => of_decide_eq_true hnot hcx
      have hrows := tryRows_path h hc hname hstack (fun x hx => ih (hlt x hx))
        (List.Subset.refl _) (List.nodup_cons.mp hcolumn.nodup).1 hcolumn.path (h.opened_length hc)
      have hsolve : s.solve (fuel + 1) = tryRows (solve fuel) c kMaxNodes
          ((Headed.covered M A c s).down c) (Headed.covered M A c s) := by
        rw [solve, if_neg hleft, hmin]
        show (s.cover c).bind _ = _
        rw [h.cover_eq hc]
        rfl
      rw [hsolve]
      refine hrows.imp_right fun ⟨hfalse, hnone⟩ => ⟨hfalse, ?_⟩
      rintro ⟨picks, hpicks, hcovers⟩
      obtain ⟨x, hx, hrest⟩ := exists_opened h hc hpicks hcovers
      exact hnone x hx hrest

end Cnet.Examples.Sudoku
