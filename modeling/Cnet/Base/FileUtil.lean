import Mathlib.Order.Monotone.Basic
import Cnet.Support.Memory
import Cnet.Support.Runs
import Cnet.Base.LogFile

/-!
# Appending to a file

`AppendFile::append` retries what `fwrite_unlocked` has not written, until a retry writes
nothing. What has been accepted is in the file or in its buffer. The bytes of one file are
fewer than a `size_t` holds, and errors are not printed here.
-/

namespace Cnet.Base.FileUtil

open Cnet.Support

/-- What the writes of one call return: of the bytes that write `k` is asked for, this many
are accepted. -/
structure Results where
  count : Nat → Nat → Nat
  le : ∀ k asked, count k asked ≤ asked

structure AppendFile where
  accepted : List UInt8
  writtenBytes_ : Nat
deriving DecidableEq, Repr

/-- The state of the loop of `append`, after some writes. -/
structure Progress where
  writes : Nat
  n : Nat
  accepted : List UInt8
deriving DecidableEq, Repr

/-- `write(logline + n, remain)` -/
def write (r : Results) (logline : List UInt8) (remain : Nat) (p : Progress) : Progress :=
  let x := r.count p.writes remain
  ⟨p.writes + 1, p.n + x, p.accepted ++ slice logline p.n (p.n + x)⟩

/-- The loop, which is left when nothing remains and when a write has returned 0. -/
def retry (r : Results) (logline : List UInt8) (remain : Nat) (p : Progress) : Progress :=
  if remain = 0 then p
  else if r.count p.writes remain = 0 then write r logline remain p
  else retry r logline (remain - r.count p.writes remain) (write r logline remain p)
termination_by remain

namespace AppendFile

def new : AppendFile := ⟨[], 0⟩

/-- The writes of `append`. -/
def writeAll (f : AppendFile) (logline : List UInt8) (r : Results) : Progress :=
  let p := write r logline logline.length ⟨0, 0, f.accepted⟩
  retry r logline (logline.length - p.n) p

def append (f : AppendFile) (logline : List UInt8) (r : Results) : AppendFile :=
  ⟨(f.writeAll logline r).accepted, f.writtenBytes_ + logline.length⟩

/-- The counter is what the file has accepted. -/
def Counted (f : AppendFile) : Prop := f.writtenBytes_ = f.accepted.length

end AppendFile

namespace Results

/-- How many of `len` bytes the first `k` writes accept, each asked for the rest. -/
def taken (r : Results) (len : Nat) : Nat → Nat
  | 0 => 0
  | k + 1 => taken r len k + r.count k (len - taken r len k)

variable (r : Results)

theorem taken_le (len k : Nat) : r.taken len k ≤ len := by
  induction k with
  | zero => exact Nat.zero_le len
  | succ k ih =>
    have hle := r.le k (len - r.taken len k)
    rw [taken]
    omega

theorem taken_mono (len : Nat) : Monotone (r.taken len) :=
  monotone_nat_of_le_succ fun _ => Nat.le_add_right _ _

/-- Write `k` is asked for something and accepts nothing. -/
def Refuses (len k : Nat) : Prop := r.taken len k < len ∧ r.count k (len - r.taken len k) = 0

end Results

/-- The bytes accepted so far are the first bytes of the line, once each. -/
structure Wrote (r : Results) (logline before : List UInt8) (p : Progress) : Prop where
  n : p.n = r.taken logline.length p.writes
  accepted : p.accepted = before ++ logline.take p.n

section
variable {r : Results} {logline before : List UInt8} {p : Progress}

theorem Wrote.n_le (h : Wrote r logline before p) : p.n ≤ logline.length :=
  h.n ▸ r.taken_le logline.length p.writes

theorem Wrote.write (h : Wrote r logline before p) :
    Wrote r logline before (write r logline (logline.length - p.n) p) where
  n := by
    show p.n + r.count p.writes (logline.length - p.n) = r.taken logline.length (p.writes + 1)
    rw [Results.taken, ← h.n]
  accepted := by
    show p.accepted ++ slice logline p.n (p.n + r.count p.writes (logline.length - p.n)) =
      before ++ logline.take (p.n + r.count p.writes (logline.length - p.n))
    rw [h.accepted, List.append_assoc, slice, Nat.add_sub_cancel_left, ← List.take_add]

/-- What the loop has done when it is left. -/
structure Done (r : Results) (logline before : List UInt8) (p q : Progress) : Prop
    extends Wrote r logline before q where
  writes_le : q.writes ≤ p.writes + (logline.length - p.n)
  whole : q.n = logline.length ∨ ∃ k, k < q.writes ∧ r.Refuses logline.length k
  n_iff : q.n = logline.length ↔ ∀ k, p.writes ≤ k → ¬ r.Refuses logline.length k

theorem retry_of_refused {remain : Nat} (hpos : remain ≠ 0) (h : r.count p.writes remain = 0) :
    retry r logline remain p = write r logline remain p := by
  rw [retry, if_neg hpos, if_pos h]

theorem retry_done {remain : Nat} (hremain : remain = logline.length - p.n)
    (h : Wrote r logline before p) : Done r logline before p (retry r logline remain p) := by
  induction remain, p using retry.induct r logline with
  | case1 p =>
    have hn : p.n = logline.length := Nat.le_antisymm h.n_le (by omega)
    rw [retry, if_pos rfl]
    refine ⟨h, Nat.le_add_right _ _, Or.inl hn, iff_of_true hn fun k hk hrefuses => ?_⟩
    have hmono := r.taken_mono logline.length hk
    have hlt := hrefuses.1
    rw [← h.n] at hmono
    omega
  | case2 remain p hpos hzero =>
    have hrefuses : r.Refuses logline.length p.writes := by
      rw [Results.Refuses, ← h.n, ← hremain]
      exact ⟨by omega, hzero⟩
    have hn : (write r logline remain p).n = p.n := by
      show p.n + r.count p.writes remain = p.n
      rw [hzero, Nat.add_zero]
    rw [retry_of_refused hpos hzero]
    refine ⟨hremain ▸ h.write, ?_, Or.inr ⟨p.writes, Nat.lt_succ_self _, hrefuses⟩, ?_⟩
    · show p.writes + 1 ≤ _
      omega
    · refine iff_of_false (by omega) fun hall => hall p.writes (Nat.le_refl _) hrefuses
  | case3 remain p hpos hzero ih =>
    have hle := r.le p.writes remain
    have hn : (write r logline remain p).n = p.n + r.count p.writes remain := rfl
    have hdone := ih (by omega) (hremain ▸ h.write)
    rw [retry, if_neg hpos, if_neg hzero]
    refine ⟨hdone.toWrote, ?_, hdone.whole, hdone.n_iff.trans ?_⟩
    · have hwrites := hdone.writes_le
      have hsucc : (write r logline remain p).writes = p.writes + 1 := rfl
      omega
    · constructor
      · intro hall k hk
        rcases Nat.eq_or_lt_of_le hk with rfl | hlt
        · intro hrefuses
          rw [Results.Refuses, ← h.n, ← hremain] at hrefuses
          exact hzero hrefuses.2
        · exact hall k hlt
      · exact fun hall k hk => hall k (Nat.le_of_succ_le hk)

end

/-- No retry accepts nothing while bytes remain. -/
def Results.Flows (r : Results) (len : Nat) : Prop := ∀ k, 1 ≤ k → ¬ r.Refuses len k

namespace AppendFile

variable (f : AppendFile) (logline : List UInt8) (r : Results)

theorem writeAll_done : ∃ p, p.writes = 1 ∧ Done r logline f.accepted p (f.writeAll logline r) := by
  have hstart : Wrote r logline f.accepted ⟨0, 0, f.accepted⟩ :=
    ⟨rfl, (List.append_nil f.accepted).symm⟩
  exact ⟨_, rfl, retry_done rfl hstart.write⟩

/-- `append` comes to an end, passes on the first bytes of the line, all of them unless a
write has accepted nothing, and counts what is accepted. -/
structure Accounted : Prop where
  writes_le : (f.writeAll logline r).writes ≤ logline.length + 1
  passed : ∃ n, n ≤ logline.length ∧ (f.append logline r).accepted = f.accepted ++ logline.take n ∧
    (n = logline.length ∨ ∃ k, k < (f.writeAll logline r).writes ∧ r.Refuses logline.length k)
  counted : (f.append logline r).Counted

variable {f}

theorem accounted_iff (h : f.Counted) :
    f.Accounted logline r ↔ r.Flows logline.length := by
  obtain ⟨p, hp, hdone⟩ := f.writeAll_done logline r
  have hn : (f.writeAll logline r).n ≤ logline.length := hdone.n_le
  have hflows : r.Flows logline.length ↔ (f.writeAll logline r).n = logline.length := by
    rw [hdone.n_iff, hp]
    rfl
  have hlength : (f.append logline r).accepted.length =
      f.accepted.length + (f.writeAll logline r).n := by
    show (f.writeAll logline r).accepted.length = _
    rw [hdone.accepted, List.length_append, List.length_take_of_le hn]
  have hcounted : (f.append logline r).Counted ↔ (f.writeAll logline r).n = logline.length := by
    show f.writtenBytes_ + logline.length = _ ↔ _
    rw [hlength, h]
    omega
  constructor
  · intro haccounted
    exact hflows.mpr (hcounted.mp haccounted.counted)
  · intro hall
    have hwrites := hdone.writes_le
    exact ⟨by omega, ⟨_, hn, hdone.accepted, hdone.whole⟩, hcounted.mpr (hflows.mp hall)⟩

def step (f : AppendFile) (c : List UInt8 × Results) : Option AppendFile := some (f.append c.1 c.2)

/-- In a run of appends the counter is right throughout exactly if no retry is refused. -/
theorem everyStep_accounted_iff (calls : List (List UInt8 × Results)) :
    EveryStep step (fun f c _ => f.Accounted c.1 c.2) new calls ↔
      StepsMeet step (fun _ c => c.2.Flows c.1.length) new calls := by
  have htotal : ∀ f c, ∃ t, step f c = some t := fun f c => ⟨_, rfl⟩
  obtain ⟨u, hu⟩ := run_of_total step htotal new calls
  have hiff : ∀ f c t, Counted f → True → step f c = some t →
      (f.Accounted c.1 c.2 ↔ c.2.Flows c.1.length) := fun f c t hf _ _ => accounted_iff c.1 c.2 hf
  have hkeep : ∀ f c t, Counted f → True → step f c = some t → f.Accounted c.1 c.2 →
      Counted t := by
    intro f c t hf _ hstep haccounted
    obtain rfl := Option.some.inj hstep
    exact haccounted.counted
  exact everyStep_iff step hiff hkeep rfl (.trivial step new calls) hu

/-- A disk that is full. -/
def full : Results := ⟨fun _ _ => 0, fun _ asked => Nat.zero_le asked⟩

/-- A byte that is not written is counted. -/
theorem everyStep_accounted_fails :
    (new.append [97] full).accepted = [] ∧ (new.append [97] full).writtenBytes_ = 1 ∧
      ¬ EveryStep step (fun f c _ => f.Accounted c.1 c.2) new [([97], full)] := by
  have hall : new.writeAll [97] full = ⟨2, 0, []⟩ := retry_of_refused Nat.one_ne_zero rfl
  have haccepted : (new.append [97] full).accepted = [] := congrArg Progress.accepted hall
  refine ⟨haccepted, rfl, fun h => ?_⟩
  have hcounted := (h.1 _ rfl).counted
  rw [Counted, haccepted] at hcounted
  exact absurd hcounted (by decide)

/-- The file as the log sees it. -/
def view (filename : List UInt8) (created : Int) (f : AppendFile) : Base.AppendFile :=
  ⟨filename, created, f.accepted, f.writtenBytes_⟩

/-- Where no retry is refused, the log's own `append` is what happens. -/
theorem view_append (filename : List UInt8) (created : Int) (f : AppendFile) {logline : List UInt8}
    {r : Results} (h : r.Flows logline.length) :
    (f.append logline r).view filename created = (f.view filename created).append logline := by
  obtain ⟨p, hp, hdone⟩ := f.writeAll_done logline r
  have hn : (f.writeAll logline r).n = logline.length := by
    rw [hdone.n_iff, hp]
    exact h
  have haccepted : (f.append logline r).accepted = f.accepted ++ logline := by
    show (f.writeAll logline r).accepted = _
    rw [hdone.accepted, hn, List.take_length]
  rw [view, haccepted]
  rfl

end AppendFile

end Cnet.Base.FileUtil
