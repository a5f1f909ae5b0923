import Mathlib.Data.List.Nodup
import Cnet.Base.Date
import Cnet.Base.LogFile

/-!
# What the log files hold

Over any run of appends, the files hold the lines, in order and each line in one file. The
second a file is created in is later than those before, and its name tells the second. A
roll that is refused is tried again at every append.
-/

namespace Cnet.Base

open Cnet.Support

/-! ## Names -/

theorem gmtime_r_bounds (t : Int) :
    (0 ≤ (gmtime_r t).tm_sec ∧ (gmtime_r t).tm_sec < 100) ∧
    (0 ≤ (gmtime_r t).tm_min ∧ (gmtime_r t).tm_min < 100) ∧
    (0 ≤ (gmtime_r t).tm_hour ∧ (gmtime_r t).tm_hour < 100) ∧
    (0 ≤ (gmtime_r t).tm_mday ∧ (gmtime_r t).tm_mday < 100) ∧
    (0 ≤ (gmtime_r t).tm_mon + 1 ∧ (gmtime_r t).tm_mon + 1 < 100) := by
  set date := Calendar.ofDayNumber (t / kSecondsPerDay + epochDay) with hdate
  have hday := day_le_31 date
  have hday' := date.day_mem.1
  have hmonth := date.month_mem
  rw [gmtime_r]
  dsimp only
  rw [← hdate, kSecondsPerDay]
  omega

theorem timebuf_injective {t u : Int} (h : timebuf (gmtime_r t) = timebuf (gmtime_r u)) :
    t = u := by
  obtain ⟨hsec, hmin, hhour, hmday, hmon⟩ := gmtime_r_bounds t
  obtain ⟨hsec', hmin', hhour', hmday', hmon'⟩ := gmtime_r_bounds u
  have hlen : ∀ {v w : Int}, 0 ≤ v ∧ v < 100 → 0 ≤ w ∧ w < 100 →
      (zeroPadded 2 v).length = (zeroPadded 2 w).length := fun hv hw =>
    (length_zeroPadded_two hv.1 hv.2).trans (length_zeroPadded_two hw.1 hw.2).symm
  rw [timebuf, timebuf] at h
  obtain ⟨h, hsecEq⟩ := List.append_inj' h (hlen hsec hsec')
  obtain ⟨h, hminEq⟩ := List.append_inj' h (hlen hmin hmin')
  obtain ⟨h, hhourEq⟩ := List.append_inj' h (hlen hhour hhour')
  obtain ⟨h, -⟩ := List.append_inj' h rfl
  obtain ⟨h, hmdayEq⟩ := List.append_inj' h (hlen hmday hmday')
  obtain ⟨h, hmonEq⟩ := List.append_inj' h (hlen hmon hmon')
  have hyear := decimalText_injective (List.append_cancel_left h)
  have hsec := zeroPadded_inj hsec.1 hsec'.1 hsecEq
  have hmin := zeroPadded_inj hmin.1 hmin'.1 hminEq
  have hhour := zeroPadded_inj hhour.1 hhour'.1 hhourEq
  have hmday := zeroPadded_inj hmday.1 hmday'.1 hmdayEq
  have hmon := zeroPadded_inj hmon.1 hmon'.1 hmonEq
  have htime : timegm (gmtime_r t) = timegm (gmtime_r u) := by
    have hyearEq : (gmtime_r t).tm_year = (gmtime_r u).tm_year := by omega
    have hmonthEq : (gmtime_r t).tm_mon = (gmtime_r u).tm_mon := by omega
    rw [timegm, timegm, hmonthEq, hmday, hhour, hmin, hsec, hyearEq]
  rwa [timegm_gmtime_r, timegm_gmtime_r] at htime

/-- Names tell the seconds. -/
theorem getLogFileName_injective (site : LogFileSite) :
    Function.Injective (getLogFileName site) := by
  intro t u h
  rw [getLogFileName, getLogFileName] at h
  exact timebuf_injective (List.append_cancel_left (List.append_cancel_right
    (List.append_cancel_right (List.append_cancel_right h))))

/-! ## Runs -/

namespace LogFile

/-- The files hold the lines. -/
structure KeepsStream (s : LogFile) (lines : List (List UInt8)) : Prop where
  concat : (s.files.map AppendFile.text).flatten = lines.flatten
  /-- The lines are dealt out to the files whole. -/
  whole : ∃ parts : List (List (List UInt8)),
    s.files.map AppendFile.text = parts.map List.flatten ∧ parts.flatten = lines
  names : (s.files.map AppendFile.filename).Nodup
  seconds : (s.files.map AppendFile.created).Nodup

/-- The append of `c` tries a roll for size, which is refused. -/
def SizeRollRefused (s : LogFile) (c : Call) : Prop :=
  ∃ f, s.file_ = some f ∧ (f.append c.logline).writtenBytes_ > s.rollSize_ ∧
    c.rollNow.time ≤ s.lastRoll_

/-- After a refused roll for size the file stays, until an append whose roll sees a later
second: the file after it is new, of that second. -/
def RollsLate (s : LogFile) : Prop :=
  ∀ c s₁, s.SizeRollRefused c → s.append c = some s₁ →
    ∀ later d, (∀ e ∈ later, e.rollNow.time ≤ s.lastRoll_) → s.lastRoll_ < d.rollNow.time →
      ∃ s₂ s₃ f, s₁.appendAll later = some s₂ ∧ s₂.closed = s.closed ∧ s₂.file_ = some f ∧
        s₂.append d = some s₃ ∧ s₃.closed = s.closed ++ [f.append d.logline] ∧
          s₃.file_ = some (.new (getLogFileName s.site d.rollNow.time) d.rollNow.time)

structure Inv (s : LogFile) (lines : List (List UInt8)) : Prop where
  file : ∃ f, s.file_ = some f
  created_le : ∀ f ∈ s.files, f.created ≤ s.lastRoll_
  whole : ∃ parts : List (List (List UInt8)),
    s.files.map AppendFile.text = parts.map List.flatten ∧ parts.flatten = lines
  named : ∀ f ∈ s.files, f.filename = getLogFileName s.site f.created
  increasing : (s.files.map AppendFile.created).Pairwise (· < ·)

variable {s s' : LogFile} {lines : List (List UInt8)}

theorem Inv.keepsStream (h : s.Inv lines) : s.KeepsStream lines where
  concat := by
    obtain ⟨parts, htext, hlines⟩ := h.whole
    rw [htext, ← hlines, List.flatten_flatten]
  whole := h.whole
  names := by
    have hnames : s.files.map AppendFile.filename =
        (s.files.map AppendFile.created).map (getLogFileName s.site) := by
      rw [List.map_map]
      exact List.map_congr_left h.named
    rw [hnames]
    exact List.Nodup.map (getLogFileName_injective s.site)
      (h.increasing.imp fun hlt => Int.ne_of_lt hlt)
  seconds := h.increasing.imp fun hlt => Int.ne_of_lt hlt

/-- A refused roll changes nothing. -/
theorem rollFile_of_le {now : Second} (h : now.time ≤ s.lastRoll_) : (s.rollFile now).1 = s := by
  rw [rollFile, if_neg (not_lt.mpr h)]

/-- A roll closes the file, and begins a new one that is named after the time read. -/
theorem rollFile_of_lt {now : Second} (h : s.lastRoll_ < now.time) :
    (s.rollFile now).1.closed = s.closed ++ s.file_.toList ∧
      (s.rollFile now).1.file_ = some (.new (getLogFileName s.site now.time) now.time) ∧
        (s.rollFile now).1.lastRoll_ = now.time ∧ (s.rollFile now).1.site = s.site := by
  rw [rollFile, if_pos h]
  exact ⟨rfl, rfl, rfl, rfl⟩

theorem inv_rollFile (h : s.Inv lines) (now : Second) : (s.rollFile now).1.Inv lines := by
  by_cases hlt : s.lastRoll_ < now.time
  · obtain ⟨hclosed, hfile, hlast, hsite⟩ := rollFile_of_lt hlt
    have hfiles : (s.rollFile now).1.files =
        s.files ++ [.new (getLogFileName s.site now.time) now.time] := by
      rw [files, hclosed, hfile]
      rfl
    obtain ⟨parts, htext, hlines⟩ := h.whole
    refine ⟨⟨_, hfile⟩, ?_, ⟨parts ++ [[]], ?_, ?_⟩, ?_, ?_⟩
    · rw [hfiles, hlast]
      exact List.forall_mem_append.mpr ⟨fun f hf => (h.created_le f hf).trans hlt.le,
        List.forall_mem_singleton.mpr le_rfl⟩
    · rw [hfiles, List.map_append, List.map_append, htext]
      rfl
    · rw [List.flatten_append, hlines]
      exact List.append_nil _
    · rw [hfiles, hsite]
      exact List.forall_mem_append.mpr ⟨h.named, List.forall_mem_singleton.mpr rfl⟩
    · rw [hfiles, List.map_append]
      refine List.pairwise_append.mpr ⟨h.increasing, List.pairwise_singleton _ _, ?_⟩
      intro t ht u hu
      obtain ⟨f, hf, rfl⟩ := List.mem_map.mp ht
      obtain rfl := List.mem_singleton.mp hu
      exact lt_of_le_of_lt (h.created_le f hf) hlt
  · rw [rollFile_of_le (not_lt.mp hlt)]
    exact h

/-- The state in which only counters and the time of the last flush have changed. -/
theorem Inv.of_files_eq (h : s.Inv lines) (hfile : s'.file_ = s.file_)
    (hclosed : s'.closed = s.closed) (hsite : s'.site = s.site)
    (hlast : s'.lastRoll_ = s.lastRoll_) : s'.Inv lines := by
  have hfiles : s'.files = s.files := by rw [files, files, hfile, hclosed]
  obtain ⟨hsome, hcreated, hwhole, hnamed, hinc⟩ := h
  rw [← hfile] at hsome
  rw [← hfiles] at hcreated hwhole hnamed hinc
  rw [← hlast] at hcreated
  rw [← hsite] at hnamed
  exact ⟨hsome, hcreated, hwhole, hnamed, hinc⟩

theorem inv_check (h : s.Inv lines) (now rollNow : Second) : (s.check now rollNow).Inv lines := by
  rw [check]
  split
  · exact inv_rollFile h rollNow
  · split
    · exact h.of_files_eq rfl rfl rfl rfl
    · exact h

/-- The line goes to the end of the open file. -/
theorem inv_write (h : s.Inv lines) {f : AppendFile} (hf : s.file_ = some f) (line : List UInt8) :
    (s.write f line).Inv (lines ++ [line]) := by
  obtain ⟨-, hcreated, ⟨parts, htext, hlines⟩, hnamed, hinc⟩ := h
  have hfiles : s.files = s.closed ++ [f] := by rw [files, hf]; rfl
  rw [hfiles] at hcreated htext hnamed hinc
  obtain ⟨hnamed, hnamed'⟩ := List.forall_mem_append.mp hnamed
  obtain ⟨hcreated, hcreated'⟩ := List.forall_mem_append.mp hcreated
  rw [List.map_append] at htext hinc
  obtain ⟨front, last, rfl, hfront, hlast⟩ := List.append_eq_map_iff.mp htext
  obtain ⟨part, rfl, hpart⟩ := List.map_eq_singleton_iff.mp hlast
  have hfiles' : (s.write f line).files = s.closed ++ [f.append line] := rfl
  have hcreatedF : f.created ≤ s.lastRoll_ := hcreated' f (List.mem_singleton_self f)
  have hnamedF : f.filename = getLogFileName s.site f.created :=
    hnamed' f (List.mem_singleton_self f)
  refine ⟨⟨_, rfl⟩, ?_, ⟨front ++ [part ++ [line]], ?_, ?_⟩, ?_, ?_⟩
  · rw [hfiles']
    exact List.forall_mem_append.mpr ⟨hcreated, List.forall_mem_singleton.mpr hcreatedF⟩
  · rw [hfiles', List.map_append, List.map_append, hfront, List.map_singleton, List.map_singleton,
      List.flatten_append, hpart, List.flatten_singleton]
    rfl
  · rw [← hlines, List.flatten_append, List.flatten_append, List.flatten_singleton,
      List.flatten_singleton, List.append_assoc]
  · rw [hfiles']
    exact List.forall_mem_append.mpr ⟨hnamed, List.forall_mem_singleton.mpr hnamedF⟩
  · rw [hfiles', List.map_append]
    exact hinc

theorem append_spec (h : s.Inv lines) (c : Call) :
    ∃ s', s.append c = some s' ∧ s'.Inv (lines ++ [c.logline]) := by
  obtain ⟨f, hf⟩ := h.file
  have hwrite := inv_write h hf c.logline
  rw [append, hf, Option.map_some]
  refine ⟨_, rfl, ?_⟩
  dsimp only
  split
  · exact inv_rollFile hwrite _
  · split
    · refine inv_check ?_ _ _
      exact hwrite.of_files_eq rfl rfl rfl rfl
    · exact hwrite.of_files_eq rfl rfl rfl rfl

theorem inv_new (site : LogFileSite) (rollSize : Nat) (flushInterval checkEveryN : Int)
    (first : Second) : (new site rollSize flushInterval checkEveryN first).Inv [] := by
  rw [new, rollFile, if_pos first.pos]
  refine ⟨⟨_, rfl⟩, ?_, ⟨[[]], rfl, rfl⟩, ?_, List.pairwise_singleton _ _⟩
  · exact List.forall_mem_singleton.mpr le_rfl
  · exact List.forall_mem_singleton.mpr rfl

theorem appendAll_spec (h : s.Inv lines) (calls : List Call) :
    ∃ s', s.appendAll calls = some s' ∧ s'.Inv (lines ++ calls.map Call.logline) := by
  induction calls generalizing s lines with
  | nil => exact ⟨s, rfl, by rw [List.map_nil, List.append_nil]; exact h⟩
  | cons c calls ih =>
    obtain ⟨s₁, hs₁, hinv₁⟩ := append_spec h c
    obtain ⟨s', hs', hinv'⟩ := ih hinv₁
    rw [List.append_assoc] at hinv'
    refine ⟨s', ?_, hinv'⟩
    rw [appendAll, hs₁]
    exact hs'

/-! ## Refused rolls -/

/-- The file is too large, so that every append tries to roll. -/
structure Overdue (s : LogFile) (f : AppendFile) : Prop where
  file : s.file_ = some f
  large : f.writtenBytes_ > s.rollSize_

theorem append_of_large {f : AppendFile} (hf : s.file_ = some f) {c : Call}
    (hlarge : (f.append c.logline).writtenBytes_ > s.rollSize_) :
    s.append c = some ((s.write f c.logline).rollFile c.rollNow).1 := by
  rw [append, hf, Option.map_some]
  exact congrArg some (if_pos hlarge)

theorem Overdue.append {f : AppendFile} (h : s.Overdue f) (c : Call) :
    s.append c = some ((s.write f c.logline).rollFile c.rollNow).1 :=
  append_of_large h.file (Nat.lt_add_right _ h.large)

/-- While the clock stands still the file goes on growing. -/
theorem Overdue.appendAll {f : AppendFile} (h : s.Overdue f) {calls : List Call}
    (hcalls : ∀ c ∈ calls, c.rollNow.time ≤ s.lastRoll_) :
    ∃ s' f', s.appendAll calls = some s' ∧ s'.Overdue f' ∧ s'.closed = s.closed ∧
      s'.lastRoll_ = s.lastRoll_ ∧ s'.site = s.site := by
  induction calls generalizing s f with
  | nil => exact ⟨s, f, rfl, h, rfl, rfl, rfl⟩
  | cons c calls ih =>
    obtain ⟨hc, hcalls⟩ := List.forall_mem_cons.mp hcalls
    have hstep := h.append c
    rw [rollFile_of_le (s := s.write f c.logline) hc] at hstep
    have hnext : Overdue (s.write f c.logline) (f.append c.logline) :=
      ⟨rfl, Nat.lt_add_right _ h.large⟩
    obtain ⟨s', f', hs', hoverdue, hclosed, hlast, hsite⟩ := ih hnext hcalls
    refine ⟨s', f', ?_, hoverdue, hclosed, hlast, hsite⟩
    rw [LogFile.appendAll, hstep]
    exact hs'

theorem rollsLate (s : LogFile) : s.RollsLate := by
  rintro c s₁ ⟨f, hf, hlarge, hrefused⟩ hs₁ later d hlater hd
  rw [append_of_large hf hlarge, rollFile_of_le (s := s.write f c.logline) hrefused] at hs₁
  obtain rfl := Option.some.inj hs₁
  have hoverdue : Overdue (s.write f c.logline) (f.append c.logline) :=
    ⟨rfl, hlarge⟩
  obtain ⟨s₂, f₂, hs₂, hoverdue₂, hclosed, hlast, hsite⟩ := hoverdue.appendAll hlater
  rw [write_closed] at hclosed
  rw [write_lastRoll_] at hlast
  rw [write_site] at hsite
  have hlt : (s₂.write f₂ d.logline).lastRoll_ < d.rollNow.time := by
    rw [write_lastRoll_, hlast]
    exact hd
  obtain ⟨hclosed₃, hfile₃, -, -⟩ := rollFile_of_lt hlt
  refine ⟨s₂, _, f₂, hs₂, hclosed, hoverdue₂.file, hoverdue₂.append d, ?_, ?_⟩
  · rw [hclosed₃, write_closed, write_file_, hclosed]
    rfl
  · rw [hfile₃, write_site, hsite]

/-- Over every run of appends, at any times. -/
theorem appendAll_keepsStream (site : LogFileSite) (rollSize : Nat)
    (flushInterval checkEveryN : Int) (first : Second) (calls : List Call) :
    ∃ s, (new site rollSize flushInterval checkEveryN first).appendAll calls = some s ∧
      s.KeepsStream (calls.map Call.logline) ∧ s.RollsLate := by
  obtain ⟨s, hs, hinv⟩ :=
    appendAll_spec (inv_new site rollSize flushInterval checkEveryN first) calls
  exact ⟨s, hs, hinv.keepsStream, s.rollsLate⟩

end LogFile

end Cnet.Base
