import Cnet.Base.LogContent
import Cnet.Net.TimerQueue
import Cnet.Support.Runs
import Cnet.Support.Window
import Mathlib.Algebra.Order.BigOperators.Group.List
import Mathlib.Data.List.DropRight

/-!
# The statistics of a server

`SudokuStat` counts responses and adds up latencies for each of the last seconds. Every
member function holds `mutex_` from its first access to its last, so the calls of all threads
come one after another; but the time of a response is read before the lock is taken, so that
seconds need not come in order. A call that fails an assert, its own or one of
`boost::circular_buffer`, has no result. The numbers are integers here and `int64_t`s in the
source: `Fits` says that none of them is out of range, and it holds of every state on the way
as long as the calls are fewer than 2^63 and their latencies add up to less.
-/

namespace Cnet.Examples.Sudoku

open Cnet.Support Cnet.Base
open Cnet.Net.Timers (Timestamp)

def kMicroSecondsPerSecond : Int := 1000 * 1000

def secondsSinceEpoch (t : Timestamp) : Int := t.tdiv kMicroSecondsPerSecond

def kSeconds : Nat := 60

structure SudokuStat where
  lastSecond_ : Int
  requests_ : CircularBuffer Int kSeconds
  latencies_ : CircularBuffer Int kSeconds
  totalRequests_ : Int
  totalResponses_ : Int
  totalSolved_ : Int
  badRequests_ : Int
  droppedRequests_ : Int
  totalLatency_ : Int
  badLatency_ : Int
deriving DecidableEq

namespace SudokuStat

def new : SudokuStat where
  lastSecond_ := 0
  requests_ := .empty
  latencies_ := .empty
  totalRequests_ := 0
  totalResponses_ := 0
  totalSolved_ := 0
  badRequests_ := 0
  droppedRequests_ := 0
  totalLatency_ := 0
  badLatency_ := 0

/-- `requests_.push_back(0)` and `latencies_.push_back(0)`. -/
def pushBack (s : SudokuStat) : SudokuStat :=
  { s with requests_ := s.requests_.pushBack 0, latencies_ := s.latencies_.pushBack 0 }

/-- `requests_.clear()` and `latencies_.clear()`. -/
def clear (s : SudokuStat) : SudokuStat := { s with requests_ := .empty, latencies_ := .empty }

/-- `++requests_.back()` and `latencies_.back() += elapsed_us`. -/
def countBack (elapsed_us : Int) (s : SudokuStat) : Option SudokuStat := do
  let requests_ ← s.requests_.modifyBack (· + 1)
  let latencies_ ← s.latencies_.modifyBack (· + elapsed_us)
  some { s with requests_, latencies_ }

/-- `++requests_[idx]` and `latencies_[idx] += elapsed_us`. -/
def countAt (idx : Nat) (elapsed_us : Int) (s : SudokuStat) : Option SudokuStat := do
  let requests_ ← s.requests_.modify idx (· + 1)
  let latencies_ ← s.latencies_.modify idx (· + elapsed_us)
  some { s with requests_, latencies_ }

/-- `while (lastSecond_ < second)`. -/
def advance (second : Int) (s : SudokuStat) : SudokuStat :=
  if s.lastSecond_ < second then
    { s.pushBack with lastSecond_ := s.lastSecond_ + 1 }.advance second
  else s
termination_by (second - s.lastSecond_).toNat
decreasing_by
  show (second - (s.lastSecond_ + 1)).toNat < (second - s.lastSecond_).toNat
  omega

/-- The branches of `recordResponse` on the second that the response falls into. -/
def recordSecond (second elapsed_us : Int) (s : SudokuStat) : Option SudokuStat :=
  let firstSecond := s.lastSecond_ - s.requests_.size + 1
  if s.lastSecond_ = second then s.countBack elapsed_us
  else if s.lastSecond_ + 1 = second ∨ s.lastSecond_ = 0 then
    { s with lastSecond_ := second }.pushBack.countBack elapsed_us
  else if second > s.lastSecond_ then
    if second < s.lastSecond_ + kSeconds then (s.advance second).countBack elapsed_us
    else { s.clear with lastSecond_ := second }.pushBack.countBack elapsed_us
  else if second ≥ firstSecond then s.countAt (second - firstSecond).toNat elapsed_us
  else if second < firstSecond then some s
  else none

/-- `assert(requests_.size() == latencies_.size())`. -/
def assertSizes (s : SudokuStat) : Option SudokuStat :=
  if s.requests_.size = s.latencies_.size then some s else none

def recordResponse (now receive : Timestamp) (solved : Bool) (s : SudokuStat) :
    Option SudokuStat := do
  let second := secondsSinceEpoch now
  let elapsed_us := now - receive
  let s ← s.assertSizes
  let s := { s with totalResponses_ := s.totalResponses_ + 1
                    totalSolved_ := if solved then s.totalSolved_ + 1 else s.totalSolved_ }
  if elapsed_us < 0 then some { s with badLatency_ := s.badLatency_ + 1 }
  else do
    let s ← { s with totalLatency_ := s.totalLatency_ + elapsed_us }.recordSecond second elapsed_us
    s.assertSizes

def recordRequest (s : SudokuStat) : SudokuStat := { s with totalRequests_ := s.totalRequests_ + 1 }

def recordBadRequest (s : SudokuStat) : SudokuStat := { s with badRequests_ := s.badRequests_ + 1 }

def recordDroppedRequest (s : SudokuStat) : SudokuStat :=
  { s with droppedRequests_ := s.droppedRequests_ + 1 }

def reset (s : SudokuStat) : SudokuStat :=
  { s.clear with
    lastSecond_ := 0
    totalRequests_ := 0
    totalResponses_ := 0
    totalSolved_ := 0
    badRequests_ := 0
    totalLatency_ := 0
    badLatency_ := 0 }

inductive Call where
  | recordResponse (now receive : Timestamp) (solved : Bool)
  | recordRequest
  | recordBadRequest
  | recordDroppedRequest
  | reset
deriving DecidableEq

def call (s : SudokuStat) : Call → Option SudokuStat
  | .recordResponse now receive solved => s.recordResponse now receive solved
  | .recordRequest => some s.recordRequest
  | .recordBadRequest => some s.recordBadRequest
  | .recordDroppedRequest => some s.recordDroppedRequest
  | .reset => some s.reset

/-! ### What the calls say -/

/-- The calls after the last `reset`. -/
def sinceReset (calls : List Call) : List Call := calls.rtakeWhile (· ≠ .reset)

structure Response where
  now : Timestamp
  receive : Timestamp
  solved : Bool
deriving DecidableEq

def Response.second (r : Response) : Int := secondsSinceEpoch r.now

def Response.elapsed (r : Response) : Int := r.now - r.receive

def Call.response? : Call → Option Response
  | .recordResponse now receive solved => some ⟨now, receive, solved⟩
  | _ => none

def responses (calls : List Call) : List Response := calls.filterMap Call.response?

/-- The responses whose latency counts. -/
def timely (calls : List Call) : List Response :=
  (responses calls).filter fun r => 0 ≤ r.elapsed

/-! ### The window -/

/-- Both buffers tell about the seconds up to `last`. -/
structure Windows (rs : List Response) (last : Int) (n : Nat) (s : SudokuStat) : Prop where
  requests : s.requests_.items = window (tally Response.second (fun _ => 1) rs) last n
  latencies : s.latencies_.items = window (tally Response.second Response.elapsed rs) last n

variable {s s' : SudokuStat} {rs : List Response} {last : Int} {n : Nat}

theorem Windows.size_requests (h : s.Windows rs last n) : s.requests_.size = n := by
  rw [CircularBuffer.size, h.requests, length_window]

theorem Windows.size_latencies (h : s.Windows rs last n) : s.latencies_.size = n := by
  rw [CircularBuffer.size, h.latencies, length_window]

/-- What the branches on the second leave alone. -/
def totals (s : SudokuStat) : List Int :=
  [s.totalRequests_, s.totalResponses_, s.totalSolved_, s.badRequests_, s.droppedRequests_,
    s.totalLatency_, s.badLatency_]

theorem Windows.empty (rs : List Response) (last : Int) (s : SudokuStat) :
    s.clear.Windows rs last 0 := ⟨rfl, rfl⟩

/-- A second that nothing has fallen into yet. -/
theorem Windows.pushBack (h : s.Windows rs last n) (hnone : ∀ r ∈ rs, r.second ≤ last) :
    s.pushBack.Windows rs (last + 1) (min kSeconds (n + 1)) := by
  have hnew : ∀ r ∈ rs, r.second ≠ last + 1 := fun r hr => by
    have := hnone r hr
    omega
  exact ⟨CircularBuffer.pushBack_window h.requests (tally_zero hnew),
    CircularBuffer.pushBack_window h.latencies (tally_zero hnew)⟩

/-- A response that falls into the window. -/
theorem Windows.countAt (h : s.Windows rs last n) {i : Nat} (hi : i < n) {r : Response}
    (hr : r.second = last - n + 1 + i) :
    ∃ s', s.countAt i r.elapsed = some s' ∧ s'.Windows (rs ++ [r]) last n ∧
      s'.lastSecond_ = s.lastSecond_ ∧ s'.totals = s.totals := by
  obtain ⟨requests_, hrequests, hreq⟩ := CircularBuffer.modify_items h.requests hi (· + 1)
  obtain ⟨latencies_, hlatencies, hlat⟩ :=
    CircularBuffer.modify_items h.latencies hi (· + r.elapsed)
  refine ⟨{ s with requests_, latencies_ }, ?_, ⟨?_, ?_⟩, rfl, rfl⟩
  · rw [SudokuStat.countAt, hrequests, Option.bind_eq_bind, Option.bind_some, hlatencies]
    rfl
  · rw [tally_concat, hr]
    exact hreq
  · rw [tally_concat, hr]
    exact hlat

theorem Windows.countBack (h : s.Windows rs last n) (hn : 0 < n) {r : Response}
    (hr : r.second = last) :
    ∃ s', s.countBack r.elapsed = some s' ∧ s'.Windows (rs ++ [r]) last n ∧
      s'.lastSecond_ = s.lastSecond_ ∧ s'.totals = s.totals := by
  have hback : s.countBack r.elapsed = s.countAt (n - 1) r.elapsed := by
    rw [SudokuStat.countBack, SudokuStat.countAt,
      CircularBuffer.modifyBack_eq (h.size_requests.symm ▸ hn),
      CircularBuffer.modifyBack_eq (h.size_latencies.symm ▸ hn), h.size_requests, h.size_latencies]
  rw [hback]
  exact h.countAt (by omega) (by omega)

/-- A response that falls before the window. -/
theorem Windows.discard (h : s.Windows rs last n) {r : Response} (hr : r.second ≤ last - n) :
    s.Windows (rs ++ [r]) last n := by
  constructor
  · rw [h.requests, tally_concat]
    exact window_congr fun t ht _ => (Function.update_of_ne (by omega) _ _).symm
  · rw [h.latencies, tally_concat]
    exact window_congr fun t ht _ => (Function.update_of_ne (by omega) _ _).symm

/-- The loop pushes one second after the other. -/
theorem Windows.advance (h : s.Windows rs s.lastSecond_ n) {second : Int}
    (hle : s.lastSecond_ ≤ second) (hnone : ∀ r ∈ rs, r.second ≤ s.lastSecond_)
    (hn : n ≤ kSeconds) :
    (s.advance second).Windows rs second (min kSeconds (n + (second - s.lastSecond_).toNat)) ∧
      (s.advance second).lastSecond_ = second ∧ (s.advance second).totals = s.totals := by
  induction s using SudokuStat.advance.induct second generalizing n with
  | case1 s hlt ih =>
    rw [SudokuStat.advance, if_pos hlt]
    set s' : SudokuStat := { s.pushBack with lastSecond_ := s.lastSecond_ + 1 } with hs'
    have hlast : s'.lastSecond_ = s.lastSecond_ + 1 := rfl
    have hpushed := h.pushBack hnone
    obtain ⟨hwindows, hsecond, htotals⟩ := ih (n := min kSeconds (n + 1))
      ⟨hpushed.requests, hpushed.latencies⟩ (by omega)
      (fun r hr => by have := hnone r hr; omega) (Nat.min_le_left _ _)
    refine ⟨?_, hsecond, htotals⟩
    convert hwindows using 1
    omega
  | case2 s hnot =>
    obtain rfl : second = s.lastSecond_ := by omega
    rw [SudokuStat.advance, if_neg hnot]
    refine ⟨?_, rfl, rfl⟩
    convert h using 1
    omega

/-- The window has been started, with a response that came first or sixty seconds and more
after all before it; it begins there, unless sixty seconds have passed since. -/
structure Started (rs : List Response) (last : Int) (n : Nat) : Prop where
  pos : 0 < last
  le_last : ∀ r ∈ rs, r.second ≤ last
  last_mem : ∃ r ∈ rs, r.second = last
  start : ∃ before, ∃ r : Response, ∃ after, rs = before ++ r :: after ∧
    (∀ b ∈ before, b.second + kSeconds ≤ r.second) ∧
      last - n + 1 = max (last - kSeconds + 1) r.second

theorem Started.size_pos (h : Started rs last n) : 0 < n := by
  obtain ⟨before, r, after, rfl, -, hstart⟩ := h.start
  have hr := h.le_last r (List.mem_append_right _ List.mem_cons_self)
  rw [kSeconds] at hstart
  omega

theorem Started.size_le (h : Started rs last n) : n ≤ kSeconds := by
  obtain ⟨before, r, after, -, -, hstart⟩ := h.start
  omega

/-- A response in a second that is not new. -/
theorem Started.concat (h : Started rs last n) {r : Response} (hr : r.second ≤ last) :
    Started (rs ++ [r]) last n := by
  obtain ⟨x, hx, hlast⟩ := h.last_mem
  obtain ⟨before, first, after, rfl, hbefore, hstart⟩ := h.start
  refine ⟨h.pos, fun y hy => ?_, ⟨x, List.mem_append_left _ hx, hlast⟩,
    ⟨before, first, after ++ [r], by rw [List.append_assoc, List.cons_append], hbefore, hstart⟩⟩
  obtain hy | hy := List.mem_append.mp hy
  · exact h.le_last y hy
  · exact List.mem_singleton.mp hy ▸ hr

/-- A response in a later second, the window still going on. -/
theorem Started.forward (h : Started rs last n) {r : Response} (hlt : last < r.second) {n' : Nat}
    (hn' : n' = min kSeconds (n + (r.second - last).toNat)) :
    Started (rs ++ [r]) r.second n' := by
  obtain ⟨before, first, after, rfl, hbefore, hstart⟩ := h.start
  have hpos := h.pos
  refine ⟨by omega, fun y hy => ?_, ⟨r, List.mem_append_right _ (List.mem_singleton_self r), rfl⟩,
    ⟨before, first, after ++ [r], by rw [List.append_assoc, List.cons_append], hbefore, ?_⟩⟩
  · obtain hy | hy := List.mem_append.mp hy
    · have := h.le_last y hy
      omega
    · exact Int.le_of_eq (congrArg Response.second (List.mem_singleton.mp hy))
  · rw [kSeconds] at *
    omega

/-- A response that starts a window. -/
theorem started_of_last {r : Response} (hpos : 0 < r.second)
    (hbefore : ∀ b ∈ rs, b.second + kSeconds ≤ r.second) :
    Started (rs ++ [r]) r.second 1 := by
  refine ⟨hpos, fun y hy => ?_, ⟨r, List.mem_append_right _ (List.mem_singleton_self r), rfl⟩,
    ⟨rs, r, [], rfl, hbefore, ?_⟩⟩
  · obtain hy | hy := List.mem_append.mp hy
    · have := hbefore y hy
      omega
    · exact Int.le_of_eq (congrArg Response.second (List.mem_singleton.mp hy))
  · rw [kSeconds]
    omega

/-- The statistics tell about the responses `rs`. -/
structure Holds (rs : List Response) (s : SudokuStat) : Prop where
  windows : s.Windows rs s.lastSecond_ s.requests_.size
  started : (rs = [] ∧ s.lastSecond_ = 0 ∧ s.requests_.size = 0) ∨
    Started rs s.lastSecond_ s.requests_.size

theorem holds_of_windows (h : s.Windows rs last n) (hlast : s.lastSecond_ = last)
    (hstarted : Started rs last n) : Holds rs s := by
  have hsize := h.size_requests
  exact ⟨hlast ▸ hsize.symm ▸ h, Or.inr (hlast ▸ hsize.symm ▸ hstarted)⟩

/-- The response is counted in the newest second. -/
theorem Windows.record (h : s.Windows rs last n) (hlast : s.lastSecond_ = last) {r : Response}
    (hr : r.second = last) (hstarted : Started (rs ++ [r]) last n) :
    ∃ s', s.countBack r.elapsed = some s' ∧ Holds (rs ++ [r]) s' ∧ s'.totals = s.totals := by
  obtain ⟨s', hs', hwindows, hsecond, htotals⟩ := h.countBack hstarted.size_pos hr
  exact ⟨s', hs', holds_of_windows hwindows (hsecond.trans hlast) hstarted, htotals⟩

/-- The first second of a window. -/
theorem Windows.start {second : Int} (h : s.Windows rs (second - 1) 0)
    (hnone : ∀ r ∈ rs, r.second < second) : s.pushBack.Windows rs second 1 := by
  have hpushed := h.pushBack fun r hr => Int.le_sub_one_of_lt (hnone r hr)
  rwa [Int.sub_add_cancel] at hpushed

/-- The branches where the window has been started. -/
theorem Windows.recordSecond (hw : s.Windows rs s.lastSecond_ s.requests_.size)
    (hstarted : Started rs s.lastSecond_ s.requests_.size) {r : Response} (hpos : 0 < r.second) :
    ∃ s', s.recordSecond r.second r.elapsed = some s' ∧ Holds (rs ++ [r]) s' ∧
      s'.totals = s.totals := by
  have hle := hstarted.le_last
  have hzero : s.lastSecond_ ≠ 0 := Int.ne_of_gt hstarted.pos
  rw [SudokuStat.recordSecond]
  dsimp only
  by_cases hsame : s.lastSecond_ = r.second
  · rw [if_pos hsame]
    exact hw.record rfl hsame.symm (hstarted.concat (Int.le_of_eq hsame.symm))
  rw [if_neg hsame]
  by_cases hnext : s.lastSecond_ + 1 = r.second
  · rw [if_pos (Or.inl hnext)]
    have hmoved : { s with lastSecond_ := r.second }.Windows rs s.lastSecond_ s.requests_.size :=
      ⟨hw.requests, hw.latencies⟩
    have hpushed := hmoved.pushBack hle
    rw [hnext] at hpushed
    exact hpushed.record rfl rfl (hstarted.forward (by omega) (by omega))
  rw [if_neg fun hor => hor.elim hnext hzero]
  by_cases hahead : s.lastSecond_ < r.second
  · rw [if_pos hahead]
    by_cases hnear : r.second < s.lastSecond_ + kSeconds
    · rw [if_pos hnear]
      obtain ⟨hpushed, hsecond, htotals⟩ := hw.advance (Int.le_of_lt hahead) hle hstarted.size_le
      obtain ⟨s', hs', hholds, htotals'⟩ :=
        hpushed.record hsecond rfl (hstarted.forward hahead rfl)
      exact ⟨s', hs', hholds, htotals'.trans htotals⟩
    · rw [if_neg hnear]
      have hcleared : { s.clear with lastSecond_ := r.second }.Windows rs (r.second - 1) 0 :=
        Windows.empty rs _ { s with lastSecond_ := r.second }
      have hbefore : ∀ x ∈ rs, x.second + kSeconds ≤ r.second := fun x hx => by
        have := hle x hx
        omega
      exact (hcleared.start fun x hx => by have := hle x hx; omega).record rfl rfl
        (started_of_last hpos hbefore)
  rw [if_neg hahead]
  have hback : r.second ≤ s.lastSecond_ := Int.not_lt.mp hahead
  by_cases hinside : r.second ≥ s.lastSecond_ - s.requests_.size + 1
  · rw [if_pos hinside]
    obtain ⟨s', hs', hwindows, hsecond, htotals⟩ := hw.countAt
      (i := (r.second - (s.lastSecond_ - s.requests_.size + 1)).toNat) (r := r)
      (by omega) (by omega)
    exact ⟨s', hs', holds_of_windows hwindows hsecond (hstarted.concat hback), htotals⟩
  · rw [if_neg hinside, if_pos (Int.not_le.mp hinside)]
    exact ⟨s, rfl, holds_of_windows (hw.discard (by omega)) rfl (hstarted.concat hback), rfl⟩

/-- Every branch counts the response where it belongs. -/
theorem Holds.recordSecond (h : Holds rs s) {r : Response} (hpos : 0 < r.second) :
    ∃ s', s.recordSecond r.second r.elapsed = some s' ∧ Holds (rs ++ [r]) s' ∧
      s'.totals = s.totals := by
  have hw := h.windows
  obtain ⟨rfl, hlast, hsize⟩ | hstarted := h.started
  · -- the first response since the start, or since the last `reset`
    rw [SudokuStat.recordSecond]
    dsimp only
    rw [hlast, if_neg (Int.ne_of_lt hpos), if_pos (Or.inr rfl)]
    rw [hsize] at hw
    have hempty : { s with lastSecond_ := r.second }.Windows [] (r.second - 1) 0 :=
      ⟨hw.requests, hw.latencies⟩
    exact (hempty.start fun _ hr => absurd hr List.not_mem_nil).record rfl rfl
      (started_of_last hpos fun _ hr => absurd hr List.not_mem_nil)
  · exact hw.recordSecond hstarted hpos

/-! ### Runs -/

/-- What the members say after the calls. -/
structure Tells (calls : List Call) (s : SudokuStat) : Prop where
  holds : Holds (timely (sinceReset calls)) s
  totalRequests : s.totalRequests_ = (sinceReset calls).count .recordRequest
  totalResponses : s.totalResponses_ = (responses (sinceReset calls)).length
  totalSolved : s.totalSolved_ = (responses (sinceReset calls)).countP Response.solved
  badRequests : s.badRequests_ = (sinceReset calls).count .recordBadRequest
  droppedRequests : s.droppedRequests_ = calls.count .recordDroppedRequest
  totalLatency : s.totalLatency_ = ((timely (sinceReset calls)).map Response.elapsed).sum
  badLatency : s.badLatency_ = (responses (sinceReset calls)).countP (·.elapsed < 0)

variable {calls : List Call}

theorem sinceReset_reset (calls : List Call) : sinceReset (calls ++ [.reset]) = [] :=
  List.rtakeWhile_concat_neg _ _ _ (by decide)

theorem sinceReset_concat {c : Call} (hc : c ≠ .reset) :
    sinceReset (calls ++ [c]) = sinceReset calls ++ [c] :=
  List.rtakeWhile_concat_pos _ _ _ (decide_eq_true hc)

theorem responses_concat (calls : List Call) (c : Call) :
    responses (calls ++ [c]) = responses calls ++ c.response?.toList := by
  rw [responses, List.filterMap_append, responses]
  cases h : c.response? with
  | none => rw [List.filterMap_cons_none h, List.filterMap_nil, Option.toList_none]
  | some r => rw [List.filterMap_cons_some h, List.filterMap_nil, Option.toList_some]

theorem tells_new : Tells [] new where
  holds := ⟨⟨rfl, rfl⟩, Or.inl ⟨rfl, rfl, rfl⟩⟩
  totalRequests := rfl
  totalResponses := rfl
  totalSolved := rfl
  badRequests := rfl
  droppedRequests := rfl
  totalLatency := rfl
  badLatency := rfl

/-- The time of a response is a second after the epoch or later; both times are `int64_t`s. -/
def Call.Timed : Call → Prop
  | .recordResponse now receive _ =>
    (kMicroSecondsPerSecond ≤ now ∧ now < (9223372036854775808 : Int)) ∧
      (-9223372036854775808 : Int) ≤ receive ∧ receive < (9223372036854775808 : Int)
  | _ => True

theorem second_pos {now : Timestamp} (h : kMicroSecondsPerSecond ≤ now) :
    0 < secondsSinceEpoch now := by
  rw [kMicroSecondsPerSecond] at h
  rw [secondsSinceEpoch, kMicroSecondsPerSecond, Int.tdiv_eq_ediv_of_nonneg (by omega)]
  omega

theorem Holds.sizes (h : Holds rs s) : s.assertSizes = some s :=
  if_pos h.windows.size_latencies.symm

theorem Holds.of_same (h : Holds rs s) (hlast : s'.lastSecond_ = s.lastSecond_)
    (hrequests : s'.requests_ = s.requests_) (hlatencies : s'.latencies_ = s.latencies_) :
    Holds rs s' := by
  obtain ⟨hwindows, hstarted⟩ := h
  rw [← hlast, ← hrequests] at hwindows hstarted
  exact ⟨⟨hrequests ▸ hwindows.requests, hlatencies ▸ hrequests ▸ hwindows.latencies⟩, hstarted⟩

theorem totalSolved_concat (rs : List Response) (r : Response) {solved : Int}
    (h : solved = rs.countP Response.solved) :
    (if r.solved then solved + 1 else solved) = ((rs ++ [r]).countP Response.solved : Int) := by
  rw [h, List.countP_append, List.countP_singleton]
  by_cases hsolved : r.solved = true
  · rw [if_pos hsolved, if_pos hsolved]
    omega
  · rw [if_neg hsolved, if_neg hsolved]
    omega

theorem counter_concat (c : Call) {d : Call} {past : List Call} {counter : Int}
    (h : counter = past.count d) :
    (if c = d then counter + 1 else counter) = ((past ++ [c]).count d : Int) := by
  rw [h, List.count_append, List.count_singleton]
  by_cases hcd : c = d
  · rw [if_pos hcd, if_pos (beq_iff_eq.mpr hcd)]
    omega
  · rw [if_neg hcd, if_neg (fun hbeq => hcd (beq_iff_eq.mp hbeq))]
    omega

/-- What a response does to the counters, whether its latency counts or not. -/
theorem Tells.counters (h : Tells calls s) {c : Call} {r : Response}
    (hc : c = .recordResponse r.now r.receive r.solved) :
    responses (sinceReset (calls ++ [c])) = responses (sinceReset calls) ++ [r] ∧
      s.totalRequests_ = (sinceReset (calls ++ [c])).count .recordRequest ∧
      s.totalResponses_ + 1 = (responses (sinceReset (calls ++ [c]))).length ∧
      (if r.solved then s.totalSolved_ + 1 else s.totalSolved_) =
        ((responses (sinceReset (calls ++ [c]))).countP Response.solved : Int) ∧
      s.badRequests_ = (sinceReset (calls ++ [c])).count .recordBadRequest ∧
      s.droppedRequests_ = (calls ++ [c]).count .recordDroppedRequest := by
  subst hc
  have hresponses := responses_concat (sinceReset calls)
    (.recordResponse r.now r.receive r.solved)
  rw [sinceReset_concat (by simp), hresponses]
  refine ⟨rfl, ?_, ?_, totalSolved_concat _ r h.totalSolved, ?_, ?_⟩
  · exact counter_concat (.recordResponse r.now r.receive r.solved) h.totalRequests
  · rw [List.length_append, h.totalResponses]
    rfl
  · exact counter_concat (.recordResponse r.now r.receive r.solved) h.badRequests
  · exact counter_concat (.recordResponse r.now r.receive r.solved) h.droppedRequests

theorem Tells.recordResponse (h : Tells calls s) {r : Response} (hpos : 0 < r.second) :
    ∃ s', s.call (.recordResponse r.now r.receive r.solved) = some s' ∧
      Tells (calls ++ [.recordResponse r.now r.receive r.solved]) s' := by
  set c := Call.recordResponse r.now r.receive r.solved with hc
  obtain ⟨hresponses, htotalRequests, htotalResponses, hsolved, hbadRequests, hdropped⟩ :=
    h.counters hc
  have htimely : timely (sinceReset (calls ++ [c])) =
      timely (sinceReset calls) ++ [r].filter fun r => 0 ≤ r.elapsed := by
    rw [timely, hresponses, List.filter_append, timely]
  rw [hc, call, SudokuStat.recordResponse, h.holds.sizes, Option.bind_eq_bind, Option.bind_some]
  dsimp only
  by_cases hneg : r.elapsed < 0
  · rw [List.filter_cons_of_neg (by rw [decide_eq_true_eq]; exact Int.not_le.mpr hneg),
      List.filter_nil, List.append_nil] at htimely
    refine ⟨_, if_pos hneg, ?_, htotalRequests, htotalResponses, hsolved, hbadRequests, hdropped,
      ?_, ?_⟩
    · rw [htimely]
      exact h.holds.of_same rfl rfl rfl
    · rw [htimely]
      exact h.totalLatency
    · rw [hresponses, List.countP_append, List.countP_singleton, if_pos (decide_eq_true hneg)]
      show s.badLatency_ + 1 = _
      rw [h.badLatency]
      omega
  · rw [List.filter_cons_of_pos (by rw [decide_eq_true_eq]; exact Int.not_lt.mp hneg),
      List.filter_nil] at htimely
    set s₁ : SudokuStat := { s with
      totalResponses_ := s.totalResponses_ + 1
      totalSolved_ := if r.solved then s.totalSolved_ + 1 else s.totalSolved_
      totalLatency_ := s.totalLatency_ + r.elapsed } with hs₁
    have hholds₁ : Holds (timely (sinceReset calls)) s₁ := h.holds.of_same rfl rfl rfl
    obtain ⟨s', hs', hholds, htotals⟩ := hholds₁.recordSecond hpos
    simp only [totals, List.cons.injEq, and_true] at htotals
    obtain ⟨e₁, e₂, e₃, e₄, e₅, e₆, e₇⟩ := htotals
    refine ⟨s', (if_neg hneg).trans ?_, htimely ▸ hholds, e₁.trans htotalRequests,
      e₂.trans htotalResponses, e₃.trans hsolved, e₄.trans hbadRequests, e₅.trans hdropped, ?_, ?_⟩
    · show (s₁.recordSecond r.second r.elapsed).bind SudokuStat.assertSizes = _
      rw [hs', Option.bind_some]
      exact hholds.sizes
    · rw [e₆, htimely, List.map_append, List.sum_append, ← h.totalLatency]
      show s.totalLatency_ + r.elapsed = _
      rw [List.map_singleton, List.sum_singleton]
    · rw [e₇, hresponses, List.countP_append, List.countP_singleton,
        if_neg (by rw [decide_eq_true_eq]; exact hneg), Nat.add_zero]
      exact h.badLatency

/-- A call that changes nothing but a counter. -/
theorem Tells.counted (h : Tells calls s) {c : Call} (hc : c ≠ .reset) (hnone : c.response? = none)
    (hheld : Holds (timely (sinceReset calls)) s')
    (hkept : [s'.totalResponses_, s'.totalSolved_, s'.totalLatency_, s'.badLatency_] =
      [s.totalResponses_, s.totalSolved_, s.totalLatency_, s.badLatency_])
    (htotalRequests : s'.totalRequests_ = (sinceReset calls ++ [c]).count .recordRequest)
    (hbadRequests : s'.badRequests_ = (sinceReset calls ++ [c]).count .recordBadRequest)
    (hdropped : s'.droppedRequests_ = (calls ++ [c]).count .recordDroppedRequest) :
    Tells (calls ++ [c]) s' := by
  have hsince : sinceReset (calls ++ [c]) = sinceReset calls ++ [c] := sinceReset_concat hc
  have hresponses : responses (sinceReset (calls ++ [c])) = responses (sinceReset calls) := by
    rw [hsince, responses_concat, hnone, Option.toList_none, List.append_nil]
  have htimely : timely (sinceReset (calls ++ [c])) = timely (sinceReset calls) := by
    rw [timely, hresponses, timely]
  simp only [List.cons.injEq, and_true] at hkept
  obtain ⟨e₁, e₂, e₃, e₄⟩ := hkept
  exact ⟨htimely ▸ hheld, hsince ▸ htotalRequests, hresponses ▸ e₁.trans h.totalResponses,
    hresponses ▸ e₂.trans h.totalSolved, hsince ▸ hbadRequests, hdropped,
    htimely ▸ e₃.trans h.totalLatency, hresponses ▸ e₄.trans h.badLatency⟩

theorem Tells.reset (h : Tells calls s) : Tells (calls ++ [.reset]) s.reset := by
  have hsince := sinceReset_reset calls
  have hdropped : s.droppedRequests_ = (calls ++ [Call.reset]).count .recordDroppedRequest :=
    counter_concat .reset h.droppedRequests
  constructor <;> try rw [hsince]
  case holds => exact ⟨⟨rfl, rfl⟩, Or.inl ⟨rfl, rfl, rfl⟩⟩
  case droppedRequests => exact hdropped
  all_goals rfl

theorem Tells.call (h : Tells calls s) {c : Call} (hc : c.Timed) :
    ∃ s', s.call c = some s' ∧ Tells (calls ++ [c]) s' := by
  cases c with
  | recordResponse now receive solved =>
    exact h.recordResponse (r := ⟨now, receive, solved⟩) (second_pos hc.1.1)
  | recordRequest =>
    exact ⟨_, rfl, h.counted (by decide) rfl (h.holds.of_same rfl rfl rfl) rfl
      (counter_concat .recordRequest h.totalRequests)
      (counter_concat .recordRequest h.badRequests)
      (counter_concat .recordRequest h.droppedRequests)⟩
  | recordBadRequest =>
    exact ⟨_, rfl, h.counted (by decide) rfl (h.holds.of_same rfl rfl rfl) rfl
      (counter_concat .recordBadRequest h.totalRequests)
      (counter_concat .recordBadRequest h.badRequests)
      (counter_concat .recordBadRequest h.droppedRequests)⟩
  | recordDroppedRequest =>
    exact ⟨_, rfl, h.counted (by decide) rfl (h.holds.of_same rfl rfl rfl) rfl
      (counter_concat .recordDroppedRequest h.totalRequests)
      (counter_concat .recordDroppedRequest h.badRequests)
      (counter_concat .recordDroppedRequest h.droppedRequests)⟩
  | reset => exact ⟨_, rfl, h.reset⟩

theorem Tells.run {past : List Call} (h : Tells past s) (hcalls : ∀ c ∈ calls, c.Timed) :
    ∃ s', run SudokuStat.call s calls = some s' ∧ Tells (past ++ calls) s' := by
  induction calls generalizing past s with
  | nil => exact ⟨s, rfl, (List.append_nil past).symm ▸ h⟩
  | cons c calls ih =>
    obtain ⟨s₁, hs₁, htells⟩ := h.call (hcalls c List.mem_cons_self)
    obtain ⟨s', hs', htells'⟩ := ih htells fun d hd => hcalls d (List.mem_cons_of_mem c hd)
    rw [List.append_assoc, List.singleton_append] at htells'
    exact ⟨s', (run_cons_some _).mpr ⟨s₁, hs₁, hs'⟩, htells'⟩

/-- Where the seconds come in order, nothing of the last sixty seconds is outside the window. -/
theorem Started.covers (h : Started rs last n)
    (hsorted : rs.Pairwise fun a b => a.second ≤ b.second) {r : Response} (hr : r ∈ rs)
    (hrecent : last - kSeconds < r.second) : last - n < r.second := by
  obtain ⟨before, first, after, rfl, hbefore, hstart⟩ := h.start
  have hfirst := h.le_last first (List.mem_append_right _ List.mem_cons_self)
  have hafter := (List.pairwise_append.mp hsorted).2.1
  obtain hr | hr := List.mem_append.mp hr
  · have := hbefore r hr
    omega
  · obtain rfl | hr := List.mem_cons.mp hr
    · omega
    · have := (List.pairwise_cons.mp hafter).1 r hr
      omega

/-- What a window adds up to when the seconds have come in order. -/
theorem Holds.sum_window (h : Holds rs s) (hsorted : rs.Pairwise fun a b => a.second ≤ b.second)
    (value : Response → Int) :
    (window (tally Response.second value rs) s.lastSecond_ s.requests_.size).sum =
      sumWhere value (fun r => s.lastSecond_ - kSeconds < r.second) rs := by
  rw [Support.sum_window]
  refine sumWhere_congr fun r hr => ?_
  rw [decide_eq_decide]
  obtain ⟨rfl, -, -⟩ | hstarted := h.started
  · exact absurd hr List.not_mem_nil
  · have hlast := hstarted.le_last r hr
    have hsize := hstarted.size_le
    constructor
    · rintro ⟨hinside, -⟩
      omega
    · exact fun hrecent => ⟨hstarted.covers hsorted hr hrecent, hlast⟩

/-! ### The numbers fit -/

def requests60s (s : SudokuStat) : Int := s.requests_.items.sum

def latency60s (s : SudokuStat) : Int := s.latencies_.items.sum

/-- Every number is a natural one that an `int64_t` can hold. -/
structure Fits (s : SudokuStat) : Prop where
  totals : ∀ v ∈ s.totals, 0 ≤ v ∧ v < 9223372036854775808
  lastSecond : 0 ≤ s.lastSecond_ ∧ s.lastSecond_ < 9223372036854775808
  requests : ∀ v ∈ s.requests_.items, 0 ≤ v ∧ v < 9223372036854775808
  latencies : ∀ v ∈ s.latencies_.items, 0 ≤ v ∧ v < 9223372036854775808
  requests60s : 0 ≤ s.requests60s ∧ s.requests60s < 9223372036854775808
  latency60s : 0 ≤ s.latency60s ∧ s.latency60s < 9223372036854775808

theorem length_sinceReset_le (calls : List Call) : (sinceReset calls).length ≤ calls.length :=
  (List.rtakeWhile_suffix _ _).length_le

theorem length_responses_le (calls : List Call) :
    (responses (sinceReset calls)).length ≤ calls.length :=
  (List.length_filterMap_le _ _).trans (length_sinceReset_le calls)

theorem elapsed_nonneg {r : Response} (hr : r ∈ timely calls) : 0 ≤ r.elapsed :=
  of_decide_eq_true (List.mem_filter.mp hr).2

/-- Fewer calls have no more latency. -/
theorem sum_timely_le {past : List Call} (h : past.Sublist calls) :
    ((timely past).map Response.elapsed).sum ≤ ((timely calls).map Response.elapsed).sum := by
  have hsub : (timely past).Sublist (timely calls) := (h.filterMap _).filter _
  refine (hsub.map Response.elapsed).sum_le_sum fun v hv => ?_
  obtain ⟨r, hr, rfl⟩ := List.mem_map.mp hv
  exact elapsed_nonneg hr

/-- A sum over some of the responses is one over all at most. -/
theorem sumWhere_fits {value : Response → Int} {rs : List Response}
    (hvalue : ∀ r ∈ rs, 0 ≤ value r) (p : Response → Bool) {m : Int}
    (hm : (rs.map value).sum < m) : 0 ≤ sumWhere value p rs ∧ sumWhere value p rs < m := by
  have hnonneg : ∀ v ∈ rs.map value, 0 ≤ v := fun v hv => by
    obtain ⟨r, hr, rfl⟩ := List.mem_map.mp hv
    exact hvalue r hr
  have hsub : ((rs.filter p).map value).Sublist (rs.map value) := List.filter_sublist.map value
  exact ⟨List.sum_nonneg fun v hv => hnonneg v (hsub.mem hv),
    Int.lt_of_le_of_lt (hsub.sum_le_sum hnonneg) hm⟩

theorem fits_window {rs : List Response} {value : Response → Int} {items : List Int} {last : Int}
    {n : Nat} (hitems : items = window (tally Response.second value rs) last n)
    (hvalue : ∀ r ∈ rs, 0 ≤ value r) {m : Int} (hm : (rs.map value).sum < m) :
    (∀ v ∈ items, 0 ≤ v ∧ v < m) ∧ 0 ≤ items.sum ∧ items.sum < m := by
  subst hitems
  refine ⟨fun v hv => ?_, ?_⟩
  · obtain ⟨i, -, rfl⟩ := List.mem_map.mp hv
    exact sumWhere_fits hvalue _ hm
  · rw [Support.sum_window]
    exact sumWhere_fits hvalue _ hm

theorem Tells.lastSecond_fits (h : Tells calls s) (hcalls : ∀ c ∈ calls, c.Timed) :
    0 ≤ s.lastSecond_ ∧ s.lastSecond_ < 9223372036854775808 := by
  obtain ⟨-, hlast, -⟩ | hstarted := h.holds.started
  · rw [hlast]
    decide
  · obtain ⟨r, hr, hlast⟩ := hstarted.last_mem
    obtain ⟨c, hc, hresponse⟩ := List.mem_filterMap.mp (List.mem_filter.mp hr).1
    have htimed := hcalls c ((List.rtakeWhile_suffix _ _).mem hc)
    cases c with
    | recordResponse now receive solved =>
      obtain rfl := Option.some.inj hresponse
      obtain ⟨⟨hpos, hlt⟩, -⟩ := htimed
      have h0 : 0 ≤ now := Int.le_trans (by decide) hpos
      rw [← hlast, Response.second, secondsSinceEpoch, Int.tdiv_eq_ediv_of_nonneg h0]
      exact ⟨Int.ediv_nonneg h0 (by decide), Int.lt_of_le_of_lt (Int.ediv_le_self _ h0) hlt⟩
    | recordRequest | recordBadRequest | recordDroppedRequest | reset =>
      exact absurd hresponse.symm (Option.some_ne_none r)

theorem Tells.fits (h : Tells calls s) (hcalls : ∀ c ∈ calls, c.Timed)
    (hlength : calls.length < 9223372036854775808)
    (hlatency : ((timely calls).map Response.elapsed).sum < 9223372036854775808) : s.Fits := by
  have hlatency : ((timely (sinceReset calls)).map Response.elapsed).sum < 9223372036854775808 :=
    Int.lt_of_le_of_lt (sum_timely_le (List.rtakeWhile_suffix _ _).sublist) hlatency
  have hsince := length_sinceReset_le calls
  have hresponses := length_responses_le calls
  have htimely : (timely (sinceReset calls)).length ≤ calls.length :=
    (List.length_filter_le _ _).trans hresponses
  have hcount : ((timely (sinceReset calls)).map fun _ => (1 : Int)).sum < 9223372036854775808 := by
    rw [List.map_const', List.sum_replicate, nsmul_one]
    omega
  have hnonneg : ∀ r ∈ timely (sinceReset calls), 0 ≤ r.elapsed := fun r hr => elapsed_nonneg hr
  obtain ⟨hrequests, hrequests60s⟩ :=
    fits_window h.holds.windows.requests (fun _ _ => by decide) hcount
  obtain ⟨hlatencies, hlatency60s⟩ :=
    fits_window h.holds.windows.latencies hnonneg hlatency
  refine ⟨?_, h.lastSecond_fits hcalls, hrequests, hlatencies, hrequests60s, hlatency60s⟩
  have h₁ : (sinceReset calls).count .recordRequest ≤ _ := List.count_le_length
  have h₂ : (responses (sinceReset calls)).countP Response.solved ≤ _ := List.countP_le_length
  have h₃ : (sinceReset calls).count .recordBadRequest ≤ _ := List.count_le_length
  have h₄ : calls.count .recordDroppedRequest ≤ _ := List.count_le_length
  have h₅ : (responses (sinceReset calls)).countP (·.elapsed < 0) ≤ _ := List.countP_le_length
  have h₆ := (sumWhere_fits hnonneg (fun _ => true) hlatency).1
  rw [sumWhere, List.filter_true] at h₆
  rw [SudokuStat.totals, h.totalRequests, h.totalResponses, h.totalSolved, h.badRequests,
    h.droppedRequests, h.totalLatency, h.badLatency]
  simp only [List.forall_mem_cons]
  refine ⟨?_, ?_, ?_, ?_, ?_, ⟨h₆, hlatency⟩, ?_, fun _ hnil => absurd hnil List.not_mem_nil⟩
  all_goals omega

/-- What a response has taken is an `int64_t`. -/
def Response.Fits (r : Response) : Prop :=
  (-9223372036854775808 : Int) ≤ r.elapsed ∧ r.elapsed < (9223372036854775808 : Int)

theorem elapsed_ge {now receive : Int} (hnow : kMicroSecondsPerSecond ≤ now)
    (hreceive : receive < 9223372036854775808) : -9223372036854775808 ≤ now - receive := by
  rw [kMicroSecondsPerSecond] at hnow
  omega

theorem response_fits (hcalls : ∀ c ∈ calls, c.Timed)
    (hlatency : ((timely calls).map Response.elapsed).sum < 9223372036854775808) :
    ∀ r ∈ responses calls, r.Fits := by
  intro r hr
  obtain ⟨c, hc, hresponse⟩ := List.mem_filterMap.mp hr
  have htimed := hcalls c hc
  cases c with
  | recordResponse now receive solved =>
    obtain rfl := Option.some.inj hresponse
    obtain ⟨⟨hpos, -⟩, -, hreceive⟩ := htimed
    constructor
    · exact elapsed_ge hpos hreceive
    · by_cases hnonneg : 0 ≤ (⟨now, receive, solved⟩ : Response).elapsed
      · have htimely : (⟨now, receive, solved⟩ : Response) ∈ timely calls :=
          List.mem_filter.mpr ⟨hr, decide_eq_true hnonneg⟩
        have hmem := List.mem_map_of_mem (f := Response.elapsed) htimely
        refine Int.lt_of_le_of_lt (List.single_le_sum (fun v hv => ?_) _ hmem) hlatency
        obtain ⟨r', hr', rfl⟩ := List.mem_map.mp hv
        exact elapsed_nonneg hr'
      · omega
  | recordRequest | recordBadRequest | recordDroppedRequest | reset =>
    exact absurd hresponse.symm (Option.some_ne_none r)

/-- Whatever the threads call, in whatever order, fewer than 2^63 calls with latencies below
2^63 microseconds in all: at no point an assert fails or a number is out of range, and the
members tell exactly about the calls since the last `reset`, and about all for the requests
dropped, which `reset` does not clear. If the seconds have come in order, the two buffers add
up to the responses of the last sixty seconds and to their latencies. -/
theorem run_tells (calls : List Call) (hcalls : ∀ c ∈ calls, c.Timed)
    (hlength : calls.length < 9223372036854775808)
    (hlatency : ((timely calls).map Response.elapsed).sum < 9223372036854775808) :
    (∀ r ∈ responses calls, r.Fits) ∧ ∀ past, past <+: calls →
      ∃ s, run SudokuStat.call new past = some s ∧ s.Fits ∧ Tells past s ∧
        ((timely (sinceReset past)).Pairwise (fun a b => a.second ≤ b.second) →
          s.requests_.items.sum = ((timely (sinceReset past)).countP
            fun r => s.lastSecond_ - kSeconds < r.second) ∧
          s.latencies_.items.sum = sumWhere Response.elapsed
            (fun r => s.lastSecond_ - kSeconds < r.second) (timely (sinceReset past))) := by
  refine ⟨response_fits hcalls hlatency, fun past hpast => ?_⟩
  have htimed : ∀ c ∈ past, c.Timed := fun c hc => hcalls c (hpast.mem hc)
  obtain ⟨s, hs, htells⟩ := tells_new.run htimed
  rw [List.nil_append] at htells
  have hfits := htells.fits htimed (Nat.lt_of_le_of_lt hpast.length_le hlength)
    (Int.lt_of_le_of_lt (sum_timely_le hpast.sublist) hlatency)
  refine ⟨s, hs, hfits, htells, fun hsorted => ⟨?_, ?_⟩⟩
  · rw [htells.holds.windows.requests, htells.holds.sum_window hsorted, sumWhere,
      List.map_const', List.sum_replicate, List.countP_eq_length_filter]
    exact nsmul_one _
  · rw [htells.holds.windows.latencies, htells.holds.sum_window hsorted]

/-- Two responses in order, one for a second before the window, and one a minute later. -/
def sampleCalls : List Call :=
  [.recordRequest, .recordResponse 100000000 99000000 true,
    .recordResponse 110000000 100000000 true, .recordResponse 95000000 94000000 false,
    .recordResponse 170000000 165000000 false]

theorem sampleCalls_timed : ∀ c ∈ sampleCalls, c.Timed := by
  simp [sampleCalls, Call.Timed, kMicroSecondsPerSecond]

theorem run_tells_sample :
    ∃ s, run SudokuStat.call new sampleCalls = some s ∧ Tells sampleCalls s ∧
      s.totalLatency_ = 17000000 := by
  obtain ⟨-, hpasts⟩ := run_tells sampleCalls sampleCalls_timed (by decide) (by decide)
  obtain ⟨s, hs, -, htells, -⟩ := hpasts sampleCalls List.prefix_rfl
  exact ⟨s, hs, htells, htells.totalLatency⟩

end SudokuStat

end Cnet.Examples.Sudoku
