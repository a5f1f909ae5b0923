import Cnet.Support.Runs
import Cnet.Examples.Sudoku.Covering

/-!
# Building the matrix

The nodes are used in order: the root, the headers, then the rows, four nodes each. What has
been built follows from the names of the headers and of the other nodes.
-/

namespace Cnet.Examples.Sudoku

open Cnet.Support SudokuSolver

/-- The headers of columns with these names. -/
def heads (names : List Nat) : List Nat := List.range' 1 names.length

/-- The nodes behind them, one for each name in `entries`. -/
def entryNodes (names entries : List Nat) : List Nat :=
  List.range' (names.length + 1) entries.length

def columnNodes (col : Nat → Nat) (names entries : List Nat) (d : Nat) : List Nat :=
  (entryNodes names entries).filter fun j => col j = d

/-- The solver when columns with these names and nodes with these names are there. -/
structure Built (board : Nat → Int) (s : SudokuSolver) (names entries : List Nat) : Prop where
  inout_eq : s.inout_ = board
  stack_eq : s.stack_ = []
  root_eq : s.root_ = 0
  cur_eq : s.cur_node_ = names.length + 1 + entries.length
  vertical : s.vertical.Rings (fun d => d ∈ heads names) (columnNodes s.col names entries)
  size : ∀ d ∈ heads names, s.size d = (columnNodes s.col names entries d).length
  col_zero : s.col 0 = 0
  col_head : ∀ d ∈ heads names, s.col d = d
  col_node : ∀ j ∈ entryNodes names entries,
    s.col j ∈ heads names ∧ s.name (s.col j) = s.name j
  name_head : (heads names).map s.name = names
  name_node : (entryNodes names entries).map s.name = entries
  columns_head : ∀ d ∈ heads names, s.columns_ (s.name d) = some d
  columns_none : ∀ n, n ∉ names → s.columns_ n = none

/-- The rings of the headers and of the rows, of which there are `r`. -/
def Rowed (L : Links Nat) (names : List Nat) (r : Nat) : Prop :=
  L.Rings (fun d => d = 0 ∨ ∃ i < r, d = names.length + 1 + 4 * i)
    fun d => if d = 0 then heads names else [d + 1, d + 2, d + 3]

variable {board : Nat → Int} {s : SudokuSolver} {names entries : List Nat} {d j n r : Nat}

theorem mem_heads : d ∈ heads names ↔ 0 < d ∧ d < names.length + 1 := by
  rw [heads, List.mem_range'_1, Nat.add_comm 1]
  rfl

theorem mem_entryNodes :
    j ∈ entryNodes names entries ↔
      names.length + 1 ≤ j ∧ j < names.length + 1 + entries.length := List.mem_range'_1

theorem mem_columnNodes {col : Nat → Nat} :
    j ∈ columnNodes col names entries d ↔ j ∈ entryNodes names entries ∧ col j = d := by
  rw [columnNodes, List.mem_filter, decide_eq_true_iff]

theorem heads_append : heads (names ++ [n]) = heads names ++ [names.length + 1] := by
  rw [heads, List.length_append, List.length_singleton, List.range'_1_concat, Nat.add_comm 1]
  rfl

theorem entryNodes_append :
    entryNodes names (entries ++ [n])
      = entryNodes names entries ++ [names.length + 1 + entries.length] := by
  rw [entryNodes, List.length_append, List.length_singleton, List.range'_1_concat]
  rfl

theorem map_update {f : Nat → Nat} {l : List Nat} {c v : Nat} (hne : ∀ e ∈ l, e ≠ c) :
    l.map (Function.update f c v) = l.map f :=
  List.map_congr_left fun e he => Function.update_of_ne (hne e he) _ _

/-- The next node is in no column. -/
theorem Built.fresh (h : Built board s names entries) (hd : d ∈ heads names) :
    s.cur_node_ ∉ d :: columnNodes s.col names entries d := by
  rw [h.cur_eq]
  intro hmem
  rcases List.mem_cons.mp hmem with rfl | hmem
  · have := (mem_heads.mp hd).2
    omega
  · have := (mem_entryNodes.mp (mem_columnNodes.mp hmem).1).2
    omega

/-- Nor is it in the rings of the rows. -/
theorem rowed_fresh {x : Nat} (hx : names.length + 1 + 4 * r ≤ x)
    (hd : d = 0 ∨ ∃ i < r, d = names.length + 1 + 4 * i) :
    x ∉ d :: if d = 0 then heads names else [d + 1, d + 2, d + 3] := by
  intro hmem
  rcases hd with rfl | ⟨i, hi, rfl⟩
  · rcases List.mem_cons.mp hmem with hzero | hmem
    · omega
    · have := (mem_heads.mp hmem).2
      omega
  · rw [if_neg (by omega)] at hmem
    simp only [List.mem_cons, List.not_mem_nil, or_false] at hmem
    omega

/-! ## Columns -/

/-- The solver with the root. -/
def rooted (memory : Nodes) (board : Nat → Int) : SudokuSolver :=
  { memory with
    horizontal := (memory.horizontal.single 0).single 0
    vertical := memory.vertical.single 0
    col := Function.update memory.col 0 0
    name := Function.update memory.name 0 0
    size := Function.update memory.size 0 0
    root_ := 0, inout_ := board, columns_ := fun _ => none, stack_ := [], cur_node_ := 1 }

theorem built_rooted (memory : Nodes) (board : Nat → Int) :
    Built board (rooted memory board) [] [] ∧ Rowed (rooted memory board).horizontal [] 0 := by
  have hnone : ∀ d, d ∉ heads [] := fun d => List.not_mem_nil
  have hcol : Function.update memory.col 0 0 0 = 0 := Function.update_self _ _ _
  refine ⟨⟨rfl, rfl, rfl, rfl, ⟨fun hd => absurd hd (hnone _), fun hd => absurd hd (hnone _)⟩,
    fun d hd => absurd hd (hnone d), hcol, fun d hd => absurd hd (hnone d),
    fun d hd => absurd hd (hnone d), rfl, rfl, fun d hd => absurd hd (hnone d), fun _ _ => rfl⟩,
    fun {d} hd => ?_, fun {d e y} hd he _ _ => ?_⟩
  · rcases hd with rfl | ⟨i, hi, -⟩
    · exact Links.ring_single _ 0
    · exact absurd hi (Nat.not_lt_zero i)
  · rcases hd with rfl | ⟨i, hi, -⟩
    · rcases he with rfl | ⟨i, hi, -⟩
      · rfl
      · exact absurd hi (Nat.not_lt_zero i)
    · exact absurd hi (Nat.not_lt_zero i)

theorem appendColumn_built (h : Built board s names []) (hrows : Rowed s.horizontal names 0)
    (hn : n ∉ names) (hroom : names.length + 1 < kMaxNodes) :
    ∃ s', s.appendColumn n = some s' ∧ Built board s' (names ++ [n]) [] ∧
      Rowed s'.horizontal (names ++ [n]) 0 := by
  have hcur : s.cur_node_ = names.length + 1 := h.cur_eq
  have happend : s.appendColumn n = some { s with
      cur_node_ := names.length + 1 + 1
      horizontal := (s.horizontal.single (names.length + 1)).insert 0 (names.length + 1)
      vertical := s.vertical.single (names.length + 1)
      name := Function.update s.name (names.length + 1) n
      size := Function.update s.size (names.length + 1) 0
      col := Function.update s.col (names.length + 1) (names.length + 1)
      columns_ := Function.update s.columns_ n (some (names.length + 1)) } := by
    rw [appendColumn, assert_pos (h.columns_none n hn), newColumn, newNode, hcur,
      assert_pos hroom, ← h.root_eq]
    rfl
  have hfresh : ∀ d ∈ heads names, d ≠ names.length + 1 := fun d hd heq =>
    Nat.lt_irrefl _ (heq ▸ (mem_heads.mp hd).2)
  have hheads : ∀ {d}, d ∈ heads (names ++ [n]) → d ∈ heads names ∨ d = names.length + 1 := by
    intro d hd
    rw [heads_append, List.mem_append, List.mem_singleton] at hd
    exact hd
  refine ⟨_, happend, ⟨h.inout_eq, h.stack_eq, h.root_eq, ?_, ?_, ?_, ?_, ?_,
    fun j hj => absurd hj List.not_mem_nil, ?_, rfl, ?_, ?_⟩, ?_⟩
  · rw [List.length_append]
    rfl
  · have hnot : ∀ e, e ∈ heads names → names.length + 1 ∉ e :: columnNodes s.col names [] e :=
      fun e he => hcur ▸ h.fresh he
    refine ((h.vertical.single hnot).add hnot (Links.ring_single _ _) rfl).of_eq
      (fun d hd => hheads hd) fun d _ => rfl
  · intro d hd
    show Function.update s.size (names.length + 1) 0 d = 0
    rcases hheads hd with hd | rfl
    · rw [Function.update_of_ne (hfresh d hd)]
      exact h.size d hd
    · rw [Function.update_self]
  · show Function.update s.col (names.length + 1) (names.length + 1) 0 = 0
    rw [Function.update_of_ne (Nat.succ_ne_zero _).symm, h.col_zero]
  · intro d hd
    show Function.update s.col (names.length + 1) (names.length + 1) d = d
    rcases hheads hd with hd | rfl
    · rw [Function.update_of_ne (hfresh d hd), h.col_head d hd]
    · rw [Function.update_self]
  · show (heads (names ++ [n])).map (Function.update s.name (names.length + 1) n) = names ++ [n]
    rw [heads_append, List.map_append, List.map_singleton, Function.update_self, map_update hfresh,
      h.name_head]
  · intro d hd
    show Function.update s.columns_ n (some (names.length + 1))
      (Function.update s.name (names.length + 1) n d) = some d
    rcases hheads hd with hd | rfl
    · have hname : s.name d ∈ names := h.name_head ▸ List.mem_map_of_mem hd
      rw [Function.update_of_ne (hfresh d hd), Function.update_of_ne, h.columns_head d hd]
      rintro heq
      exact hn (heq ▸ hname)
    · rw [Function.update_self, Function.update_self]
  · intro m hm
    rw [List.mem_append, List.mem_singleton, not_or] at hm
    show Function.update s.columns_ n (some (names.length + 1)) m = none
    rw [Function.update_of_ne hm.2, h.columns_none m hm.1]
  · have hnot : ∀ e, (e = 0 ∨ ∃ i < 0, e = names.length + 1 + 4 * i) →
        names.length + 1 ∉ e :: if e = 0 then heads names else [e + 1, e + 2, e + 3] :=
      fun e he => rowed_fresh (Nat.le_refl _) he
    refine ((hrows.single hnot).insert (.inl rfl) hnot).of_eq ?_ ?_
    · rintro d (rfl | ⟨i, hi, -⟩)
      · exact .inl rfl
      · exact absurd hi (Nat.not_lt_zero i)
    · rintro d (rfl | ⟨i, hi, -⟩)
      · rw [Function.update_self, if_pos rfl, if_pos rfl, heads_append]
      · exact absurd hi (Nat.not_lt_zero i)

/-! ## Rows -/

/-- The next node becomes the last one of its column. -/
theorem columnNodes_append (h : Built board s names entries) (hd : d ∈ heads names) :
    columnNodes (Function.update s.col s.cur_node_ d) names (entries ++ [n])
      = Function.update (columnNodes s.col names entries) d
          (columnNodes s.col names entries d ++ [s.cur_node_]) := by
  funext e
  have hold : ((entryNodes names entries).filter fun j =>
      Function.update s.col s.cur_node_ d j = e) = columnNodes s.col names entries e := by
    refine List.filter_congr fun j hj => ?_
    rw [Function.update_of_ne]
    rintro rfl
    have := (mem_entryNodes.mp hj).2
    rw [h.cur_eq] at this
    exact Nat.lt_irrefl _ this
  rw [columnNodes, entryNodes_append, List.filter_append, hold, ← h.cur_eq]
  by_cases he : e = d
  · subst he
    rw [Function.update_self, List.filter_cons_of_pos (by simp), List.filter_nil]
  · rw [Function.update_of_ne he, List.filter_cons_of_neg, List.filter_nil, List.append_nil]
    rw [Function.update_self, decide_eq_true_iff]
    exact Ne.symm he

theorem newRow_built (h : Built board s names entries) (hn : n ∈ names)
    (hroom : s.cur_node_ < kMaxNodes) :
    ∃ s', s.newRow n = some (s.cur_node_, s') ∧ Built board s' names (entries ++ [n]) ∧
      s'.horizontal = s.horizontal.single s.cur_node_ := by
  rw [← h.name_head] at hn
  obtain ⟨d, hd, rfl⟩ := List.mem_map.mp hn
  have hnew : s.newRow (s.name d) = some (s.cur_node_, { s with
      cur_node_ := s.cur_node_ + 1
      horizontal := s.horizontal.single s.cur_node_
      vertical := (s.vertical.single s.cur_node_).insert d s.cur_node_
      name := Function.update s.name s.cur_node_ (s.name d)
      size := Function.update (Function.update s.size s.cur_node_ 0) d
        (Function.update s.size s.cur_node_ 0 d + 1)
      col := Function.update s.col s.cur_node_ d }) := by
    rw [newRow, h.columns_head d hd, newNode, assert_pos hroom]
    rfl
  have hnot : ∀ e, e ∈ heads names → s.cur_node_ ∉ e :: columnNodes s.col names entries e :=
    fun e he => h.fresh he
  have hne : ∀ e ∈ heads names, e ≠ s.cur_node_ := fun e he heq =>
    hnot e he (heq ▸ List.mem_cons_self)
  have hentry : ∀ j ∈ entryNodes names entries, j ≠ s.cur_node_ := by
    rintro j hj rfl
    have := (mem_entryNodes.mp hj).2
    rw [h.cur_eq] at this
    exact Nat.lt_irrefl _ this
  refine ⟨_, hnew, ⟨h.inout_eq, h.stack_eq, h.root_eq, ?_, ?_, ?_, ?_, ?_, ?_, ?_, ?_, ?_,
    h.columns_none⟩, rfl⟩
  · show s.cur_node_ + 1 = _
    rw [h.cur_eq, List.length_append]
    rfl
  · exact ((h.vertical.single hnot).insert hd hnot).of_eq (fun _ he => he) fun e _ =>
      congrFun (columnNodes_append h hd) e
  · intro e he
    show Function.update (Function.update s.size s.cur_node_ 0) d
      (Function.update s.size s.cur_node_ 0 d + 1) e = _
    rw [columnNodes_append h hd]
    by_cases heq : e = d
    · subst heq
      rw [Function.update_self, Function.update_self, Function.update_of_ne (hne e he), h.size e he,
        List.length_append, List.length_singleton, Int.natCast_add]
      rfl
    · rw [Function.update_of_ne heq, Function.update_of_ne heq, Function.update_of_ne (hne e he),
        h.size e he]
  · show Function.update s.col s.cur_node_ d 0 = 0
    rw [Function.update_of_ne, h.col_zero]
    rw [h.cur_eq]
    omega
  · intro e he
    show Function.update s.col s.cur_node_ d e = e
    rw [Function.update_of_ne (hne e he), h.col_head e he]
  · intro j hj
    show Function.update s.col s.cur_node_ d j ∈ heads names ∧
      Function.update s.name s.cur_node_ (s.name d) (Function.update s.col s.cur_node_ d j)
        = Function.update s.name s.cur_node_ (s.name d) j
    rw [entryNodes_append, List.mem_append, List.mem_singleton, ← h.cur_eq] at hj
    rcases hj with hj | rfl
    · obtain ⟨hcol, hname⟩ := h.col_node j hj
      rw [Function.update_of_ne (hentry j hj), Function.update_of_ne (hne _ hcol),
        Function.update_of_ne (hentry j hj)]
      exact ⟨hcol, hname⟩
    · rw [Function.update_self, Function.update_self, Function.update_of_ne (hne d hd)]
      exact ⟨hd, rfl⟩
  · exact (map_update hne).trans h.name_head
  · show (entryNodes names (entries ++ [s.name d])).map
      (Function.update s.name s.cur_node_ (s.name d)) = entries ++ [s.name d]
    rw [entryNodes_append, ← h.cur_eq, List.map_append, List.map_singleton, Function.update_self,
      map_update hentry, h.name_node]
  · intro e he
    show s.columns_ (Function.update s.name s.cur_node_ (s.name d) e) = some e
    rw [Function.update_of_ne (hne e he), h.columns_head e he]

/-! ## The four nodes of a value in a cell -/

/-- A ring of the next four nodes. -/
theorem Rowed.append {L : Links Nat} {c : Nat} (hrows : Rowed L names r)
    (hc : c = names.length + 1 + 4 * r) :
    Rowed ((((((((L.single c).single (c + 1)).single (c + 2)).single (c + 3)).insert c
      (c + 1)).insert c (c + 2)).insert c (c + 3))) names (r + 1) := by
  let F : Nat → List Nat := fun d => if d = 0 then heads names else [d + 1, d + 2, d + 3]
  let old : Nat → Prop := fun d => d = 0 ∨ ∃ i < r, d = names.length + 1 + 4 * i
  have holdFresh : ∀ x, c ≤ x → ∀ e, old e → x ∉ e :: F e := fun x hx e he =>
    rowed_fresh (hc ▸ hx) he
  have hne : ∀ e, old e → e ≠ c := fun e he heq =>
    holdFresh c (Nat.le_refl c) e he (heq ▸ List.mem_cons_self)
  have hfresh : ∀ x l, c ≤ x → x ∉ c :: l →
      ∀ e, old e ∨ e = c → x ∉ e :: Function.update F c l e := by
    intro x l hx hl e he
    rcases he with he | rfl
    · rw [Function.update_of_ne (hne e he)]
      exact holdFresh x hx e he
    · rwa [Function.update_self]
  have h0 : (L.single c).Rings (fun d => old d ∨ d = c) (Function.update F c []) := by
    have hsingle : (L.single c).Rings old F :=
      Links.Rings.single hrows fun e he => holdFresh c (Nat.le_refl c) e he
    have hrename : (L.single c).Rings old (Function.update F c []) :=
      hsingle.of_eq (fun _ he => he) fun e he => Function.update_of_ne (hne e he) _ _
    refine hrename.add (fun e he => ?_) (Links.ring_single L c) (Function.update_self _ _ _)
    rw [Function.update_of_ne (hne e he)]
    exact holdFresh c (Nat.le_refl c) e he
  have h1 := h0.single (hfresh (c + 1) [] (by omega) (by simp))
  have h2 := h1.single (hfresh (c + 2) [] (by omega) (by simp))
  have h3 := h2.single (hfresh (c + 3) [] (by omega) (by simp))
  have h4 := h3.insert (.inr rfl) (hfresh (c + 1) [] (by omega) (by simp))
  rw [Function.update_idem, Function.update_self] at h4
  have h5 := h4.insert (.inr rfl) (hfresh (c + 2) [c + 1] (by omega) (by simp))
  rw [Function.update_idem, Function.update_self] at h5
  have h6 := h5.insert (.inr rfl) (hfresh (c + 3) [c + 1, c + 2] (by omega) (by simp))
  rw [Function.update_idem, Function.update_self] at h6
  have hheads : ∀ d, (d = 0 ∨ ∃ i < r + 1, d = names.length + 1 + 4 * i) → old d ∨ d = c := by
    rintro d (hd | ⟨i, hi, hd⟩)
    · exact .inl (.inl hd)
    · rcases Nat.lt_succ_iff_lt_or_eq.mp hi with hi | rfl
      · exact .inl (.inr ⟨i, hi, hd⟩)
      · exact .inr (hd.trans hc.symm)
  refine h6.of_eq hheads fun d hd => ?_
  rcases hheads d hd with hd | rfl
  · rw [Function.update_of_ne (hne d hd)]
  · rw [Function.update_self, if_neg (by omega)]
    rfl

/-- The names of the nodes. -/
def rowNames (p : Nat × Nat) : List Nat :=
  [p.1, getRowCol (rowOf p.1) p.2, getColCol (colOf p.1) p.2, getBoxCol (boxOf p.1) p.2]

theorem Built.putLeft (h : Built board s names entries) (old nnew : Nat) :
    Built board (s.putLeft old nnew) names entries :=
  ⟨h.inout_eq, h.stack_eq, h.root_eq, h.cur_eq, h.vertical, h.size, h.col_zero, h.col_head,
    h.col_node, h.name_head, h.name_node, h.columns_head, h.columns_none⟩

theorem Built.cur_append (h : Built board s names entries) {s' : SudokuSolver}
    (h' : Built board s' names (entries ++ [n])) : s'.cur_node_ = s.cur_node_ + 1 := by
  rw [h.cur_eq, h'.cur_eq, List.length_append]
  rfl

theorem appendRow_built {p : Nat × Nat} (h : Built board s names entries)
    (hrows : Rowed s.horizontal names r) (hr : entries.length = 4 * r)
    (hnames : ∀ n ∈ rowNames p, n ∈ names) (hroom : s.cur_node_ + 3 < kMaxNodes) :
    ∃ s', s.appendRow p.1 p.2 = some s' ∧ Built board s' names (entries ++ rowNames p) ∧
      Rowed s'.horizontal names (r + 1) := by
  obtain ⟨hn0, hnames⟩ := List.forall_mem_cons.mp hnames
  obtain ⟨hnr, hnames⟩ := List.forall_mem_cons.mp hnames
  obtain ⟨hnc, hnames⟩ := List.forall_mem_cons.mp hnames
  obtain ⟨hnb, -⟩ := List.forall_mem_cons.mp hnames
  obtain ⟨s₁, hs₁, h₁, hh₁⟩ := newRow_built h hn0 (by omega)
  have hcur₁ := h.cur_append h₁
  obtain ⟨s₂, hs₂, h₂, hh₂⟩ := newRow_built h₁ hnr (by omega)
  have hcur₂ := h₁.cur_append h₂
  obtain ⟨s₃, hs₃, h₃, hh₃⟩ := newRow_built h₂ hnc (by omega)
  have hcur₃ := h₂.cur_append h₃
  obtain ⟨s₄, hs₄, h₄, hh₄⟩ := newRow_built h₃ hnb (by omega)
  rw [List.append_assoc, List.append_assoc, List.append_assoc] at h₄
  rw [hcur₃, hcur₂, hcur₁] at hs₄ hh₄
  rw [hcur₂, hcur₁] at hs₃ hh₃
  rw [hcur₁] at hs₂ hh₂
  refine ⟨_, ?_, ((h₄.putLeft s.cur_node_ (s.cur_node_ + 1)).putLeft s.cur_node_
    (s.cur_node_ + 2)).putLeft s.cur_node_ (s.cur_node_ + 3), ?_⟩
  · rw [appendRow, hs₁]
    show (s₁.newRow _).bind _ = _
    rw [hs₂]
    show (s₂.newRow _).bind _ = _
    rw [hs₃]
    show (s₃.newRow _).bind _ = _
    rw [hs₄]
    rfl
  · have hnext := hrows.append (h.cur_eq.trans (congrArg _ hr))
    rw [← hh₁, ← hh₂, ← hh₃, ← hh₄] at hnext
    exact hnext

/-! ## The constructor -/

def cellNames (board : Nat → Int) (i : Nat) : List Nat := if board i = 0 then [i] else []

def unlessSeen (seen : Bool) (n : Nat) : List Nat := if seen then [] else [n]

def valueNames (seen : Seen) (i v : Nat) : List Nat :=
  unlessSeen (seen.rows i v) (getRowCol i v) ++ unlessSeen (seen.cols i v) (getColCol i v) ++
    unlessSeen (seen.boxes i v) (getBoxCol i v)

/-- The columns of a board, in the order in which they are made. -/
def columnNames (board : Nat → Int) : List Nat :=
  (List.range kCells).flatMap (cellNames board) ++
    (List.range 9).flatMap fun i => (List.range' 1 9).flatMap fun v => valueNames (seen board) i v

/-- The values that a cell can have. -/
def cellChoices (board : Nat → Int) (i : Nat) : List (Nat × Nat) :=
  if board i = 0 then
    (List.range' 1 9).flatMap fun v => if candidate (seen board) i v then [(i, v)] else []
  else []

def choices (board : Nat → Int) : List (Nat × Nat) :=
  (List.range kCells).flatMap (cellChoices board)

/-- What holds while columns are made. -/
def ColumnsMade (board : Nat → Int) (s : SudokuSolver) (names : List Nat) : Prop :=
  Built board s names [] ∧ Rowed s.horizontal names 0

/-- There is room for the columns, and no name is taken twice. -/
def ColumnsFit (names : List Nat) : Prop := names.Nodup ∧ names.length < kMaxNodes

theorem columnsFit_of_append (a b : List Nat) (h : ColumnsFit (a ++ b)) : ColumnsFit a :=
  ⟨(List.nodup_append.mp h.1).1, by have := h.2; rw [List.length_append] at this; omega⟩

theorem appendColumn_made {acc : List Nat} (h : ColumnsMade board s acc)
    (hfit : ColumnsFit (acc ++ [n])) :
    ∃ s', s.appendColumn n = some s' ∧ ColumnsMade board s' (acc ++ [n]) := by
  have hlength := hfit.2
  rw [List.length_append] at hlength
  refine appendColumn_built h.1 h.2 (fun hn => ?_) hlength
  exact (List.nodup_append.mp hfit.1).2.2 n hn n (List.mem_singleton_self n) rfl

theorem unlessSeen_made {acc : List Nat} {b : Bool} (h : ColumnsMade board s acc)
    (hfit : ColumnsFit (acc ++ unlessSeen b n)) :
    ∃ s', s.appendUnless b n = some s' ∧
      ColumnsMade board s' (acc ++ unlessSeen b n) := by
  cases b with
  | true =>
    refine ⟨s, rfl, ?_⟩
    rw [unlessSeen, if_pos rfl, List.append_nil]
    exact h
  | false => exact appendColumn_made h hfit

theorem appendColumns_made {acc : List Nat} {seen : Seen} {i v : Nat} (h : ColumnsMade board s acc)
    (hfit : ColumnsFit (acc ++ valueNames seen i v)) :
    ∃ s', s.appendColumns seen i v = some s' ∧
      ColumnsMade board s' (acc ++ valueNames seen i v) := by
  rw [valueNames, ← List.append_assoc, ← List.append_assoc] at hfit ⊢
  have hfit₂ := columnsFit_of_append _ _ hfit
  obtain ⟨s₁, hs₁, h₁⟩ := unlessSeen_made h (columnsFit_of_append _ _ hfit₂)
  obtain ⟨s₂, hs₂, h₂⟩ := unlessSeen_made h₁ hfit₂
  obtain ⟨s₃, hs₃, h₃⟩ := unlessSeen_made h₂ hfit
  refine ⟨s₃, ?_, h₃⟩
  rw [appendColumns, hs₁]
  show (s₁.appendUnless _ _).bind _ = _
  rw [hs₂]
  exact hs₃

/-- The rows for some of the values. -/
def RowsMade (board : Nat → Int) (names : List Nat) (s : SudokuSolver)
    (made : List (Nat × Nat)) : Prop :=
  Built board s names (made.flatMap rowNames) ∧ Rowed s.horizontal names made.length

/-- There is room for the rows, and they have their columns. -/
def RowsFit (names : List Nat) (made : List (Nat × Nat)) : Prop :=
  names.length + 4 * made.length < kMaxNodes ∧ ∀ p ∈ made, ∀ n ∈ rowNames p, n ∈ names

theorem rowsFit_of_append (a b : List (Nat × Nat)) (h : RowsFit names (a ++ b)) :
    RowsFit names a :=
  ⟨by have := h.1; rw [List.length_append] at this; omega,
    fun p hp => h.2 p (List.mem_append_left _ hp)⟩

theorem length_flatMap_rowNames (made : List (Nat × Nat)) :
    (made.flatMap rowNames).length = 4 * made.length := by
  induction made with
  | nil => rfl
  | cons p made ih =>
    rw [List.flatMap_cons, List.length_append, ih, List.length_cons]
    show 4 + 4 * made.length = _
    omega

theorem appendRow_made {acc : List (Nat × Nat)} {p : Nat × Nat} (h : RowsMade board names s acc)
    (hfit : RowsFit names (acc ++ [p])) :
    ∃ s', s.appendRow p.1 p.2 = some s' ∧ RowsMade board names s' (acc ++ [p]) := by
  have hroom := hfit.1
  have hlength := length_flatMap_rowNames acc
  rw [List.length_append, List.length_singleton] at hroom
  obtain ⟨s', hs', hbuilt, hrows⟩ := appendRow_built h.1 h.2 hlength
    (hfit.2 p (List.mem_append_right _ (List.mem_singleton_self p))) (by
      rw [h.1.cur_eq, hlength]
      omega)
  refine ⟨s', hs', ?_, ?_⟩
  · rwa [List.flatMap_append, List.flatMap_singleton]
  · rwa [List.length_append]

theorem cellColumns_made {acc : List Nat} (h : ColumnsMade board s acc)
    (hfit : ColumnsFit (acc ++ (List.range kCells).flatMap (cellNames board))) :
    ∃ s', (List.range kCells).foldlM
        (fun s i => if s.inout_ i = 0 then s.appendColumn i else some s) s = some s' ∧
      ColumnsMade board s' (acc ++ (List.range kCells).flatMap (cellNames board)) := by
  refine foldlM_builds (I := ColumnsMade board) columnsFit_of_append
    (fun s acc i _ h hfit => ?_) h hfit
  rw [cellNames] at hfit ⊢
  rw [h.1.inout_eq]
  by_cases hzero : board i = 0
  · rw [if_pos hzero] at hfit ⊢
    rw [if_pos hzero]
    exact appendColumn_made h hfit
  · rw [if_neg hzero, if_neg hzero, List.append_nil]
    exact ⟨s, rfl, h⟩

theorem valueColumns_made {acc : List Nat} {seen : Seen} (h : ColumnsMade board s acc)
    (hfit : ColumnsFit (acc ++ (List.range 9).flatMap fun i =>
      (List.range' 1 9).flatMap fun v => valueNames seen i v)) :
    ∃ s', (List.range 9).foldlM
        (fun s i => (List.range' 1 9).foldlM (fun s v => s.appendColumns seen i v) s) s = some s' ∧
      ColumnsMade board s' (acc ++ (List.range 9).flatMap fun i =>
        (List.range' 1 9).flatMap fun v => valueNames seen i v) :=
  foldlM_builds (I := ColumnsMade board) columnsFit_of_append
    (fun _ _ _ _ h hfit => foldlM_builds (I := ColumnsMade board) columnsFit_of_append
      (fun _ _ _ _ h hfit => appendColumns_made h hfit) h hfit) h hfit

theorem rows_made {acc : List (Nat × Nat)} (h : RowsMade board names s acc)
    (hfit : RowsFit names (acc ++ choices board)) :
    ∃ s', (List.range kCells).foldlM
        (fun s i =>
          if s.inout_ i = 0 then
            (List.range' 1 9).foldlM
              (fun s v => if candidate (seen board) i v then s.appendRow i v else some s) s
          else some s) s = some s' ∧
      RowsMade board names s' (acc ++ choices board) := by
  refine foldlM_builds (I := RowsMade board names) rowsFit_of_append
    (fun s acc i _ h hfit => ?_) h hfit
  rw [cellChoices] at hfit ⊢
  rw [h.1.inout_eq]
  by_cases hzero : board i = 0
  · rw [if_pos hzero] at hfit ⊢
    rw [if_pos hzero]
    refine foldlM_builds (I := RowsMade board names) rowsFit_of_append
      (fun s acc v _ h hfit => ?_) h hfit
    by_cases hcandidate : candidate (seen board) i v
    · rw [if_pos hcandidate] at hfit ⊢
      rw [if_pos hcandidate]
      exact appendRow_made h hfit
    · rw [if_neg hcandidate, if_neg hcandidate, List.append_nil]
      exact ⟨s, rfl, h⟩
  · rw [if_neg hzero, if_neg hzero, List.append_nil]
    exact ⟨s, rfl, h⟩

/-- The constructor comes to an end, and no assert fails. -/
theorem create_made (memory : Nodes) (board : Nat → Int) (hcolumns : ColumnsFit (columnNames board))
    (hrows : RowsFit (columnNames board) (choices board)) :
    ∃ s, create memory board = some s ∧ RowsMade board (columnNames board) s (choices board) := by
  obtain ⟨s₁, hs₁, h₁⟩ := cellColumns_made (built_rooted memory board)
    (columnsFit_of_append _ _ hcolumns)
  obtain ⟨s₂, hs₂, h₂⟩ := valueColumns_made h₁ hcolumns
  have hnone : RowsMade board (columnNames board) s₂ [] := h₂
  obtain ⟨s₃, hs₃, h₃⟩ := rows_made hnone hrows
  have hrooted : create memory board = (List.range kCells).foldlM
      (fun s i => if s.inout_ i = 0 then s.appendColumn i else some s) (rooted memory board) >>=
      fun s => (List.range 9).foldlM
        (fun s i => (List.range' 1 9).foldlM (fun s v => s.appendColumns (seen board) i v) s) s >>=
      fun s => (List.range kCells).foldlM
        (fun s i =>
          if s.inout_ i = 0 then
            (List.range' 1 9).foldlM
              (fun s v => if candidate (seen board) i v then s.appendRow i v else some s) s
          else some s) s := rfl
  rw [hrooted]
  exact ⟨s₃, Option.bind_eq_some_iff.mpr ⟨s₁, hs₁, Option.bind_eq_some_iff.mpr ⟨s₂, hs₂, hs₃⟩⟩, h₃⟩

end Cnet.Examples.Sudoku
