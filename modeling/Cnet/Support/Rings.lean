import Mathlib.Data.List.Induction
import Mathlib.Data.List.Nodup
import Mathlib.Logic.Function.Basic

/-!
# Nodes linked in rings

Each node has a next and a previous one. A node that has been taken out of its ring still
knows its neighbours; so nodes that come back in the reverse order find exactly the links
that they left.
-/

namespace Cnet.Support

universe u v

structure Links (α : Type u) where
  next : α → α
  prev : α → α

namespace Links

section

variable {α : Type u} [DecidableEq α] (L : Links α)

/-- The node is on its own. -/
def single (x : α) : Links α := ⟨Function.update L.next x x, Function.update L.prev x x⟩

/-- The node leaves its ring. -/
def unlink (x : α) : Links α :=
  ⟨Function.update L.next (L.prev x) (L.next x), Function.update L.prev (L.next x) (L.prev x)⟩

/-- The node comes back, for the next node first. -/
def relink (x : α) : Links α :=
  let prev := Function.update L.prev (L.next x) x
  ⟨Function.update L.next (prev x) x, prev⟩

/-- The node `x` goes in before `h`. -/
def insert (h x : α) : Links α :=
  ⟨Function.update (Function.update L.next x h) (L.prev h) x,
    Function.update (Function.update L.prev x (L.prev h)) h x⟩

end

section

variable {α : Type u} (L : Links α)

/-- The other way round. -/
def flip : Links α := ⟨L.prev, L.next⟩

/-- The neighbours know the node. -/
def Linked (x : α) : Prop := L.next (L.prev x) = x ∧ L.prev (L.next x) = x

/-- From `a` over `l` to `b`, and back. -/
def Path : α → List α → α → Prop
  | a, [], b => L.next a = b ∧ L.prev b = a
  | a, x :: l, b => L.next a = x ∧ L.prev x = a ∧ Path x l b

/-- The ring of `h`, which the nodes of `l` are in behind `h`. -/
structure Ring (h : α) (l : List α) : Prop where
  nodup : (h :: l).Nodup
  path : L.Path h l h

end

variable {α : Type u} {L L' : Links α} {a b h x y : α} {l p q : List α}

/-! ## Paths -/

theorem path_append : L.Path a (p ++ x :: q) b ↔ L.Path a p x ∧ L.Path x q b := by
  induction p generalizing a with
  | nil => exact and_assoc.symm
  | cons y p ih => rw [List.cons_append, Path, Path, ih, and_assoc, and_assoc]

theorem Path.congr (hpath : L.Path a l b) (hnext : ∀ y ∈ a :: l, L'.next y = L.next y)
    (hprev : ∀ y ∈ b :: l, L'.prev y = L.prev y) : L'.Path a l b := by
  induction l generalizing a with
  | nil =>
    exact ⟨(hnext a List.mem_cons_self).trans hpath.1, (hprev b List.mem_cons_self).trans hpath.2⟩
  | cons x l ih =>
    obtain ⟨hx, ha, hrest⟩ := hpath
    refine ⟨(hnext a List.mem_cons_self).trans hx,
      (hprev x (List.mem_cons_of_mem _ List.mem_cons_self)).trans ha, ih hrest ?_ ?_⟩
    · exact fun y hy => hnext y (List.mem_cons_of_mem _ hy)
    · intro y hy
      rcases List.mem_cons.mp hy with rfl | hy
      · exact hprev y List.mem_cons_self
      · exact hprev y (List.mem_cons_of_mem _ (List.mem_cons_of_mem _ hy))

theorem Path.agree (hpath : L.Path a l b) (hpath' : L'.Path a l b) :
    (∀ y ∈ a :: l, L'.next y = L.next y) ∧ ∀ y ∈ b :: l, L'.prev y = L.prev y := by
  induction l generalizing a with
  | nil =>
    simp only [List.mem_singleton, forall_eq]
    exact ⟨hpath'.1.trans hpath.1.symm, hpath'.2.trans hpath.2.symm⟩
  | cons x l ih =>
    obtain ⟨hx, ha, hrest⟩ := hpath
    obtain ⟨hx', ha', hrest'⟩ := hpath'
    obtain ⟨hnext, hprev⟩ := ih hrest hrest'
    rw [List.forall_mem_cons] at hprev
    exact ⟨List.forall_mem_cons.mpr ⟨hx'.trans hx.symm, hnext⟩,
      List.forall_mem_cons.mpr ⟨hprev.1, List.forall_mem_cons.mpr ⟨ha'.trans ha.symm, hprev.2⟩⟩⟩

theorem Path.flip (hpath : L.Path a l b) : L.flip.Path b l.reverse a := by
  induction l generalizing a with
  | nil => exact ⟨hpath.2, hpath.1⟩
  | cons x l ih =>
    obtain ⟨hx, ha, hrest⟩ := hpath
    rw [List.reverse_cons]
    exact path_append.mpr ⟨ih hrest, ha, hx⟩

theorem Path.first (hpath : L.Path a l b) : L.prev (L.next a) = a ∧ L.next a ∈ l ++ [b] := by
  cases l with
  | nil =>
    obtain ⟨rfl, hb⟩ := hpath
    exact ⟨hb, List.mem_singleton_self _⟩
  | cons x l =>
    obtain ⟨rfl, hx, -⟩ := hpath
    exact ⟨hx, List.mem_cons_self⟩

theorem Path.last (hpath : L.Path a l b) : L.next (L.prev b) = b ∧ L.prev b ∈ a :: l := by
  obtain ⟨hlinked, hmem⟩ := hpath.flip.first
  refine ⟨hlinked, ?_⟩
  rw [List.mem_append, List.mem_reverse, List.mem_singleton] at hmem
  exact List.mem_cons.mpr hmem.symm

/-! ## Rings -/

theorem Ring.rotate (hring : L.Ring h (p ++ x :: q)) : L.Ring x (q ++ h :: p) where
  nodup := by
    have hperm : (x :: (q ++ h :: p)).Perm (h :: (p ++ x :: q)) :=
      @List.perm_append_comm α (x :: q) (h :: p)
    exact hperm.nodup_iff.mpr hring.nodup
  path := by
    obtain ⟨hp, hq⟩ := path_append.mp hring.path
    exact path_append.mpr ⟨hq, hp⟩

/-- A ring starts at any of its nodes. -/
theorem Ring.at_mem (hring : L.Ring h l) (hx : x ∈ h :: l) :
    ∃ l', L.Ring x l' ∧ ∀ y, y ∈ x :: l' ↔ y ∈ h :: l := by
  rcases List.mem_cons.mp hx with rfl | hx
  · exact ⟨l, hring, fun _ => Iff.rfl⟩
  · obtain ⟨p, q, rfl⟩ := List.append_of_mem hx
    refine ⟨q ++ h :: p, hring.rotate, fun y => ?_⟩
    simp only [List.mem_cons, List.mem_append]
    tauto

theorem Ring.linked (hring : L.Ring h l) (hx : x ∈ h :: l) :
    L.Linked x ∧ L.next x ∈ h :: l ∧ L.prev x ∈ h :: l := by
  obtain ⟨l', hring', hmem⟩ := hring.at_mem hx
  obtain ⟨hprev, hnextMem⟩ := hring'.path.first
  obtain ⟨hnext, hprevMem⟩ := hring'.path.last
  refine ⟨⟨hnext, hprev⟩, (hmem _).mp ?_, (hmem _).mp hprevMem⟩
  rw [List.mem_append, List.mem_singleton] at hnextMem
  exact List.mem_cons.mpr hnextMem.symm

/-- The head is its own neighbour only if it is alone. -/
theorem Ring.prev_ne (hring : L.Ring h l) (hl : l ≠ []) : L.prev h ≠ h := by
  intro hself
  obtain ⟨⟨hnext, -⟩, -⟩ := hring.linked List.mem_cons_self
  rw [hself] at hnext
  cases l with
  | nil => exact hl rfl
  | cons x l =>
    have hx : x = h := hring.path.1.symm.trans hnext
    exact (List.nodup_cons.mp hring.nodup).1 (hx ▸ List.mem_cons_self)

/-- A ring says what its pointers are. -/
theorem Ring.agree (hring : L.Ring h l) (hring' : L'.Ring h l) (hx : x ∈ h :: l) :
    L'.next x = L.next x ∧ L'.prev x = L.prev x :=
  ⟨(hring.path.agree hring'.path).1 x hx, (hring.path.agree hring'.path).2 x hx⟩

theorem Ring.congr (hring : L.Ring h l)
    (hkeep : ∀ y ∈ h :: l, L'.next y = L.next y ∧ L'.prev y = L.prev y) : L'.Ring h l where
  nodup := hring.nodup
  path := hring.path.congr (fun y hy => (hkeep y hy).1) fun y hy => (hkeep y hy).2

section

variable [DecidableEq α]

theorem ring_single (L : Links α) (x : α) : (L.single x).Ring x [] where
  nodup := List.nodup_singleton x
  path := ⟨Function.update_self _ _ _, Function.update_self _ _ _⟩

theorem unlink_next_self (x : α) : (L.unlink x).next x = L.next x := by
  show Function.update L.next (L.prev x) (L.next x) x = L.next x
  rw [Function.update_apply, ite_eq_right_iff]
  exact fun _ => rfl

theorem unlink_next_of_ne (hx : y ≠ L.prev x) : (L.unlink x).next y = L.next y :=
  Function.update_of_ne hx _ _

theorem unlink_prev_of_ne (hx : y ≠ L.next x) : (L.unlink x).prev y = L.prev y :=
  Function.update_of_ne hx _ _

theorem relink_unlink (hx : L.Linked x) : (L.unlink x).relink x = L := by
  have hself : Function.update (L.unlink x).prev (L.next x) x = L.prev := by
    show Function.update (Function.update L.prev (L.next x) (L.prev x)) (L.next x) x = L.prev
    rw [Function.update_idem, Function.update_eq_self_iff]
    exact hx.2.symm
  have hnext : Function.update (L.unlink x).next (L.prev x) x = L.next := by
    show Function.update (Function.update L.next (L.prev x) (L.next x)) (L.prev x) x = L.next
    rw [Function.update_idem, Function.update_eq_self_iff]
    exact hx.1.symm
  unfold relink
  rw [unlink_next_self, hself]
  dsimp only
  rw [hnext]

/-- What is before the node is linked with what is behind it. -/
theorem Path.unlink (hpath : L.Path a (p ++ x :: q) b) (ha : (a :: (p ++ x :: q)).Nodup)
    (hb : (b :: (p ++ x :: q)).Nodup) : (L.unlink x).Path a (p ++ q) b := by
  obtain ⟨hp, hq⟩ := path_append.mp hpath
  have hprev := hp.last.2
  have hnext := hq.first.2
  induction p generalizing a with
  | nil =>
    obtain ⟨hxa, hax⟩ := hp
    cases q with
    | nil =>
      obtain ⟨hxb, -⟩ := hq
      refine ⟨?_, ?_⟩
      · show Function.update L.next (L.prev x) (L.next x) a = b
        rw [hax, Function.update_self, hxb]
      · show Function.update L.prev (L.next x) (L.prev x) b = a
        rw [hxb, Function.update_self, hax]
    | cons y q =>
      obtain ⟨hxy, -, hrest⟩ := hq
      refine ⟨?_, ?_, hrest.congr ?_ ?_⟩
      · show Function.update L.next (L.prev x) (L.next x) a = y
        rw [hax, Function.update_self, hxy]
      · show Function.update L.prev (L.next x) (L.prev x) y = a
        rw [hxy, Function.update_self, hax]
      · intro z hz
        refine unlink_next_of_ne ?_
        rintro rfl
        rw [hax] at hz
        exact (List.nodup_cons.mp ha).1 (List.mem_cons_of_mem _ hz)
      · intro z hz
        refine unlink_prev_of_ne ?_
        rintro rfl
        rw [hxy] at hz
        simp only [List.nil_append, List.nodup_cons, List.mem_cons, not_or] at hb
        rcases List.mem_cons.mp hz with rfl | hz
        · exact hb.1.2.1 rfl
        · exact hb.2.2.1 hz
  | cons z p ih =>
    obtain ⟨haz, hza, hrest⟩ := hpath
    obtain ⟨hrest', -⟩ := path_append.mp hrest
    have hprev' := hrest'.last.2
    refine ⟨?_, ?_, ih hrest ?_ ?_ hrest' hprev'⟩
    · rw [unlink_next_of_ne, haz]
      rintro rfl
      exact (List.nodup_cons.mp ha).1 (List.mem_append_left _ hprev')
    · rw [unlink_prev_of_ne, hza]
      rintro rfl
      simp only [List.cons_append, List.nodup_cons, List.mem_cons, List.mem_append, not_or] at hb
      rcases List.mem_append.mp hnext with hmem | hmem
      · exact hb.2.1.2.2 hmem
      · exact hb.1.1 (List.mem_singleton.mp hmem).symm
    · exact (List.nodup_cons.mp ha).2
    · exact hb.sublist (List.Sublist.cons_cons _ (List.sublist_cons_self _ _))

theorem Ring.unlink (hring : L.Ring h l) (hx : x ∈ l) :
    (L.unlink x).Ring h (l.filter fun y => y ≠ x) := by
  obtain ⟨p, q, rfl⟩ := List.append_of_mem hx
  have hnodup := (List.nodup_cons.mp hring.nodup).2
  have hmiddle := List.nodup_middle.mp hnodup
  have hnot := (List.nodup_cons.mp hmiddle).1
  have hfilter : ((p ++ x :: q).filter fun y => y ≠ x) = p ++ q := by
    rw [List.filter_append, List.filter_cons_of_neg (by simp), ← List.filter_append,
      List.filter_eq_self]
    intro y hy
    rw [decide_eq_true_iff]
    rintro rfl
    exact hnot hy
  rw [hfilter]
  refine ⟨?_, hring.path.unlink hring.nodup hring.nodup⟩
  exact hring.nodup.sublist
    (List.Sublist.cons_cons _ ((List.sublist_cons_self _ _).append_left _))

theorem insert_next_of_ne (hx : y ≠ x) (hprev : y ≠ L.prev h) :
    (L.insert h x).next y = L.next y :=
  (Function.update_of_ne hprev _ _).trans (Function.update_of_ne hx _ _)

theorem insert_prev_of_ne (hx : y ≠ x) (hh : y ≠ h) : (L.insert h x).prev y = L.prev y :=
  (Function.update_of_ne hh _ _).trans (Function.update_of_ne hx _ _)

/-- A node from outside becomes the last one. -/
theorem Ring.insert (hring : L.Ring h l) (hx : x ∉ h :: l) : (L.insert h x).Ring h (l ++ [x]) where
  nodup := by
    rw [← List.cons_append, List.nodup_append]
    refine ⟨hring.nodup, List.nodup_singleton x, fun y hy z hz => ?_⟩
    obtain rfl := List.mem_singleton.mp hz
    rintro rfl
    exact hx hy
  path := by
    have hne : x ≠ h := fun heq => hx (heq ▸ List.mem_cons_self)
    obtain ⟨-, hlast⟩ := hring.path.last
    have hprevNe : x ≠ L.prev h := fun heq => hx (heq ▸ hlast)
    have hnext : (L.insert h x).next (L.prev h) = x := Function.update_self _ _ _
    have hnextSelf : (L.insert h x).next x = h :=
      (Function.update_of_ne hprevNe _ _).trans (Function.update_self _ _ _)
    have hprev : (L.insert h x).prev h = x := Function.update_self _ _ _
    have hprevSelf : (L.insert h x).prev x = L.prev h :=
      (Function.update_of_ne hne _ _).trans (Function.update_self _ _ _)
    refine path_append.mpr ⟨?_, hnextSelf, hprev⟩
    rcases List.eq_nil_or_concat' l with rfl | ⟨l, y, rfl⟩
    · obtain ⟨-, hself⟩ := hring.path
      refine ⟨?_, hprevSelf.trans hself⟩
      rwa [hself] at hnext
    · obtain ⟨hinit, hy, hyh⟩ := path_append.mp hring.path
      have hnodup := hring.nodup
      rw [← List.cons_append, List.nodup_append] at hnodup
      have hynot : y ∉ h :: l := fun hmem => hnodup.2.2 y hmem y (List.mem_singleton_self y) rfl
      refine path_append.mpr ⟨hinit.congr ?_ ?_, ?_, hprevSelf.trans hyh⟩
      · intro z hz
        refine insert_next_of_ne ?_ ?_
        · rintro rfl
          exact hx (List.mem_append_left [y] hz)
        · rintro rfl
          exact hynot (hyh ▸ hz)
      · intro z hz
        have hzmem : z ∈ l ++ [y] := by
          rcases List.mem_cons.mp hz with rfl | hz
          · exact List.mem_append_right _ (List.mem_singleton_self _)
          · exact List.mem_append_left _ hz
        refine insert_prev_of_ne ?_ ?_
        · rintro rfl
          exact hx (List.mem_cons_of_mem _ hzmem)
        · rintro rfl
          exact (List.nodup_cons.mp hring.nodup).1 hzmem
      · rwa [hyh] at hnext

end

/-! ## Several rings -/

/-- Each head has its ring, and no node is in two of them. -/
structure Rings (L : Links α) (heads : α → Prop) (F : α → List α) : Prop where
  ring : ∀ {d}, heads d → L.Ring d (F d)
  apart : ∀ {d e y}, heads d → heads e → y ∈ d :: F d → y ∈ e :: F e → d = e

namespace Rings

variable {heads : α → Prop} {F : α → List α} {d e : α}

theorem congr (h : L.Rings heads F) (hkeep : ∀ d, heads d → ∀ y ∈ d :: F d,
    L'.next y = L.next y ∧ L'.prev y = L.prev y) : L'.Rings heads F :=
  ⟨fun hd => (h.ring hd).congr (hkeep _ hd), h.apart⟩

/-- Fewer rings, or the same ones in other words. -/
theorem of_eq {heads' : α → Prop} {F' : α → List α} (h : L.Rings heads F)
    (hheads : ∀ d, heads' d → heads d) (hF : ∀ d, heads' d → F' d = F d) : L.Rings heads' F' where
  ring hd := hF _ hd ▸ h.ring (hheads _ hd)
  apart hd he hyd hye :=
    h.apart (hheads _ hd) (hheads _ he) (hF _ hd ▸ hyd) (hF _ he ▸ hye)

theorem add (h : L.Rings heads F) (hx : ∀ e, heads e → x ∉ e :: F e) (hring : L.Ring x [])
    (hF : F x = []) : L.Rings (fun d => heads d ∨ d = x) F where
  ring {d} hd := by
    rcases hd with hd | rfl
    · exact h.ring hd
    · exact hF ▸ hring
  apart {d e y} hd he hyd hye := by
    rcases hd, he with ⟨hd | rfl, he | rfl⟩
    · exact h.apart hd he hyd hye
    · rw [hF, List.mem_singleton] at hye
      exact absurd (hye ▸ hyd) (hx d hd)
    · rw [hF, List.mem_singleton] at hyd
      exact absurd (hyd ▸ hye) (hx e he)
    · rfl

variable [DecidableEq α]

theorem unlink (h : L.Rings heads F) (hd : heads d) (hx : x ∈ F d) :
    (L.unlink x).Rings heads fun e => (F e).filter fun y => y ≠ x where
  ring {e} he := by
    by_cases heq : e = d
    · subst heq
      exact (h.ring he).unlink hx
    · obtain ⟨-, hnext, hprev⟩ := (h.ring hd).linked (List.mem_cons_of_mem _ hx)
      have hfilter : ((F e).filter fun y => y ≠ x) = F e := by
        rw [List.filter_eq_self]
        intro y hy
        rw [decide_eq_true_iff]
        rintro rfl
        exact heq (h.apart he hd (List.mem_cons_of_mem _ hy) (List.mem_cons_of_mem _ hx))
      rw [hfilter]
      refine (h.ring he).congr fun y hy => ⟨unlink_next_of_ne ?_, unlink_prev_of_ne ?_⟩
      · rintro rfl
        exact heq (h.apart he hd hy hprev)
      · rintro rfl
        exact heq (h.apart he hd hy hnext)
  apart {d e y} hd he hyd hye := by
    have hsub : ∀ e, e :: ((F e).filter fun y => y ≠ x) ⊆ e :: F e :=
      fun e => List.cons_subset_cons _ (List.filter_subset_self _)
    exact h.apart hd he (hsub _ hyd) (hsub _ hye)

/-- Nodes that leave their rings one after the other. -/
theorem unlinkAll {xs : List α} (h : L.Rings heads F) (hnodup : xs.Nodup)
    (hmem : ∀ x ∈ xs, ∃ d, heads d ∧ x ∈ F d) :
    (xs.foldl Links.unlink L).Rings heads fun e => (F e).filter fun y => y ∉ xs := by
  induction xs generalizing L F with
  | nil => simpa using h
  | cons x xs ih =>
    obtain ⟨d, hd, hx⟩ := hmem x List.mem_cons_self
    obtain ⟨hnot, hnodup⟩ := List.nodup_cons.mp hnodup
    have hrest := ih (h.unlink hd hx) hnodup (fun y hy => ?_)
    · simpa only [List.foldl_cons, List.filter_filter, List.mem_cons, not_or, Bool.decide_and,
        Bool.and_comm, ne_eq] using hrest
    · obtain ⟨e, he, hye⟩ := hmem y (List.mem_cons_of_mem _ hy)
      refine ⟨e, he, List.mem_filter.mpr ⟨hye, decide_eq_true ?_⟩⟩
      rintro rfl
      exact hnot hy

/-- Each of them is linked until it leaves. -/
theorem linked_unlinkAll {xs ys : List α} (h : L.Rings heads F) (hnodup : (xs ++ y :: ys).Nodup)
    (hmem : ∀ x ∈ xs ++ y :: ys, ∃ d, heads d ∧ x ∈ F d) : (xs.foldl Links.unlink L).Linked y := by
  obtain ⟨hxs, -, hapart⟩ := List.nodup_append.mp hnodup
  obtain ⟨d, hd, hy⟩ := hmem y (List.mem_append_right _ List.mem_cons_self)
  have hrings := h.unlinkAll hxs fun x hx => hmem x (List.mem_append_left _ hx)
  refine ((hrings.ring hd).linked (List.mem_cons_of_mem _ (List.mem_filter.mpr ⟨hy, ?_⟩))).1
  exact decide_eq_true fun hmem => hapart y hmem y List.mem_cons_self rfl

theorem insert (h : L.Rings heads F) (hd : heads d) (hx : ∀ e, heads e → x ∉ e :: F e) :
    (L.insert d x).Rings heads (Function.update F d (F d ++ [x])) where
  ring {e} he := by
    by_cases heq : e = d
    · subst heq
      rw [Function.update_self]
      exact (h.ring he).insert (hx e he)
    · rw [Function.update_of_ne heq]
      obtain ⟨-, -, hprev⟩ := (h.ring hd).linked List.mem_cons_self
      refine (h.ring he).congr fun y hy => ⟨insert_next_of_ne ?_ ?_, insert_prev_of_ne ?_ ?_⟩
      · rintro rfl
        exact hx e he hy
      · rintro rfl
        exact heq (h.apart he hd hy hprev)
      · rintro rfl
        exact hx e he hy
      · rintro rfl
        exact heq (h.apart he hd hy List.mem_cons_self)
  apart {e f y} he hf hye hyf := by
    have hcases : ∀ {e}, heads e → y ∈ e :: Function.update F d (F d ++ [x]) e →
        y ∈ e :: F e ∨ e = d ∧ y = x := by
      intro e he hy
      by_cases heq : e = d
      · subst heq
        rw [Function.update_self, ← List.cons_append, List.mem_append, List.mem_singleton] at hy
        exact hy.imp_right fun hy => ⟨rfl, hy⟩
      · rw [Function.update_of_ne heq] at hy
        exact .inl hy
    rcases hcases he hye, hcases hf hyf with ⟨hyE | ⟨heq, hyx⟩, hyF | ⟨hfq, hyx'⟩⟩
    · exact h.apart he hf hyE hyF
    · exact absurd (hyx' ▸ hyE) (hx e he)
    · exact absurd (hyx ▸ hyF) (hx f hf)
    · rw [heq, hfq]

/-- A new node makes a ring of its own. -/
theorem single (h : L.Rings heads F) (hx : ∀ e, heads e → x ∉ e :: F e) :
    (L.single x).Rings heads F := by
  refine h.congr fun d hd y hy => ?_
  have hne : y ≠ x := by
    rintro rfl
    exact hx d hd hy
  exact ⟨Function.update_of_ne hne _ _, Function.update_of_ne hne _ _⟩

end Rings

/-! ## Loops along a ring -/

section

variable {σ : Type v} [DecidableEq α] {next : σ → α → α} {body : α → σ → Option σ}
  {f : σ → α → σ} {s : σ} {fuel : Nat}

/-- `for (x = …; x != stop; x = x->next) body`: the pointer is read when the body is done. -/
def walk (next : σ → α → α) (body : α → σ → Option σ) (stop : α) : Nat → α → σ → Option σ
  | 0, _, _ => none
  | fuel + 1, x, s =>
    if x = stop then some s
    else (body x s).bind fun s => walk next body stop fuel (next s x) s

theorem walk_path (hpath : L.Path a l h) (hnot : h ∉ l)
    (hbody : ∀ p x q, l = p ++ x :: q → body x (p.foldl f s) = some (f (p.foldl f s) x) ∧
      next (f (p.foldl f s) x) x = L.next x)
    (hfuel : l.length < fuel) : walk next body h fuel (L.next a) s = some (l.foldl f s) := by
  induction l generalizing a s fuel with
  | nil =>
    obtain ⟨fuel, rfl⟩ := Nat.exists_eq_succ_of_ne_zero (Nat.ne_zero_of_lt hfuel)
    rw [hpath.1, walk, if_pos rfl, List.foldl_nil]
  | cons x l ih =>
    obtain ⟨fuel, rfl⟩ := Nat.exists_eq_succ_of_ne_zero (Nat.ne_zero_of_lt hfuel)
    obtain ⟨hax, -, hrest⟩ := hpath
    obtain ⟨hx, hnext⟩ := hbody [] x l rfl
    rw [List.foldl_nil] at hx hnext
    rw [List.mem_cons, not_or] at hnot
    rw [hax, walk, if_neg (Ne.symm hnot.1), hx, Option.bind_some, hnext, List.foldl_cons]
    have hbody' : ∀ p y q, l = p ++ y :: q → _ := fun p y q hl =>
      hbody (x :: p) y q (congrArg (List.cons x) hl)
    exact ih hrest hnot.2 hbody' (Nat.lt_of_succ_lt_succ hfuel)

/-- A loop around a ring whose pointers stay, as far as the loop has come. -/
theorem Ring.walk_eq (hring : L.Ring h l)
    (hbody : ∀ p x q, l = p ++ x :: q → body x (p.foldl f s) = some (f (p.foldl f s) x) ∧
      next (f (p.foldl f s) x) x = L.next x)
    (hfuel : l.length < fuel) : walk next body h fuel (L.next h) s = some (l.foldl f s) :=
  walk_path hring.path (List.nodup_cons.mp hring.nodup).1 hbody hfuel

theorem walk_undo_path (hpath : L.Path h l b) (hnot : h ∉ l)
    (hbody : ∀ p x q, l = p ++ x :: q → body x (f (p.foldl f s) x) = some (p.foldl f s) ∧
      next (p.foldl f s) x = L.prev x)
    (hfuel : l.length < fuel) : walk next body h fuel (L.prev b) (l.foldl f s) = some s := by
  induction l using List.reverseRecOn generalizing b fuel with
  | nil =>
    obtain ⟨fuel, rfl⟩ := Nat.exists_eq_succ_of_ne_zero (Nat.ne_zero_of_lt hfuel)
    rw [hpath.2, walk, if_pos rfl, List.foldl_nil]
  | append_singleton l x ih =>
    obtain ⟨fuel, rfl⟩ := Nat.exists_eq_succ_of_ne_zero (Nat.ne_zero_of_lt hfuel)
    obtain ⟨hinit, -, hb⟩ := path_append.mp hpath
    obtain ⟨hx, hnext⟩ := hbody l x [] rfl
    rw [List.mem_append, List.mem_singleton, not_or] at hnot
    rw [List.length_append, List.length_singleton] at hfuel
    rw [hb, List.foldl_append, List.foldl_cons, List.foldl_nil, walk, if_neg (Ne.symm hnot.2), hx,
      Option.bind_some, hnext]
    refine ih hinit hnot.1 (fun p y q hl => hbody p y (q ++ [x]) ?_) (Nat.lt_of_succ_lt_succ hfuel)
    rw [hl, List.append_assoc, List.cons_append]

/-- A loop the other way round, which undoes what was done in each place. -/
theorem Ring.walk_undo (hring : L.Ring h l)
    (hbody : ∀ p x q, l = p ++ x :: q → body x (f (p.foldl f s) x) = some (p.foldl f s) ∧
      next (p.foldl f s) x = L.prev x)
    (hfuel : l.length < fuel) : walk next body h fuel (L.prev h) (l.foldl f s) = some s :=
  walk_undo_path hring.path (List.nodup_cons.mp hring.nodup).1 hbody hfuel

/-- A part of the state that the loop does not look at. -/
theorem walk_map {g : σ → σ} (hnext : ∀ s x, next (g s) x = next s x)
    (hbody : ∀ x s, body x (g s) = (body x s).map g) :
    walk next body h fuel x (g s) = (walk next body h fuel x s).map g := by
  induction fuel generalizing x s with
  | zero => rfl
  | succ fuel ih =>
    rw [walk, walk, hbody]
    split
    · rfl
    · cases body x s with
      | none => rfl
      | some s' =>
        rw [Option.map_some, Option.bind_some, Option.bind_some, hnext]
        exact ih

end

end Links

end Cnet.Support
