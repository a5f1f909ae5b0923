import Cnet.Examples.Sudoku.SudokuStat

/-!
# The report of the statistics

`report` writes everything into one log stream, which drops what does not fit. However many
seconds there are to tell of and however long the numbers, everything fits.
-/

namespace Cnet.Examples.Sudoku

open Cnet.Support Cnet.Base

namespace SudokuStat

/-- `result << label << v << '\n'`; an `int64_t` goes in as a `long`. -/
def line (label : String) (v : Int) : List Piece :=
  [.cString (chars label), .long (Int64.ofInt v), .char 10]

/-- `result << label`, `result << ' ' << v` for each value, and `result << '\n'`. -/
def lineOfEach (label : String) (vs : List Int) : List Piece :=
  .cString (chars label) :: vs.flatMap (fun v => [.char 32, .long (Int64.ofInt v)]) ++ [.char 10]

def latencyAvg60s (s : SudokuStat) : Int :=
  if s.requests60s = 0 then 0 else s.latency60s.tdiv s.requests60s

def latencyAvg (s : SudokuStat) : Int :=
  if s.totalResponses_ = 0 then 0 else s.totalLatency_.tdiv s.totalResponses_

/-- What is put into `result`. -/
def pieces (queueSize : UInt64) (s : SudokuStat) : List Piece :=
  [.cString (chars "task_queue_size "), .unsignedLong queueSize, .char 10] ++
  line "total_requests " s.totalRequests_ ++
  line "total_responses " s.totalResponses_ ++
  line "total_solved " s.totalSolved_ ++
  line "bad_requests " s.badRequests_ ++
  line "dropped_requests " s.droppedRequests_ ++
  line "latency_sum_us " s.totalLatency_ ++
  -- no blank after this label
  (if s.badLatency_ > 0 then line "bad_latency" s.badLatency_ else []) ++
  line "last_second " s.lastSecond_ ++
  lineOfEach "requests_per_second" s.requests_.items ++
  line "requests_60s " s.requests60s ++
  lineOfEach "latency_sum_us_per_second" s.latencies_.items ++
  line "latency_sum_us_60s " s.latency60s ++
  line "latency_us_60s " s.latencyAvg60s ++
  line "latency_us_avg " s.latencyAvg

/-- The text, for a stream whose array starts with anything in it. -/
def report (queueSize : UInt64) (data_ : SmallArray) (s : SudokuStat) : Option (List UInt8) :=
  ((LogStream.new data_).insertAll (fun _ => []) (s.pieces queueSize)).map LogStream.content

/-- The whole text of some pieces. -/
def text (ps : List Piece) : List UInt8 := ps.flatMap (Piece.text fun _ => [])

theorem text_append (ps qs : List Piece) : text (ps ++ qs) = text ps ++ text qs :=
  List.flatMap_append

theorem length_long_le (v : Int64) : ((Piece.long v).text fun _ => []).length ≤ 20 :=
  length_decimalText_le v.le_toInt (by have := v.toInt_lt; omega)

theorem length_line_le (label : String) (h : (chars label).length ≤ 19) (v : Int) :
    (text (line label v)).length ≤ 40 := by
  have := length_long_le (Int64.ofInt v)
  simp only [text, line, List.flatMap_cons, List.flatMap_nil, List.length_append, List.length_nil]
  show (chars label).length + (_ + (1 + 0)) ≤ _
  omega

theorem length_each_le (vs : List Int) :
    (text (vs.flatMap fun v => [.char 32, .long (Int64.ofInt v)])).length ≤ 21 * vs.length := by
  induction vs with
  | nil => exact Nat.le_refl 0
  | cons v vs ih =>
    have := length_long_le (Int64.ofInt v)
    rw [List.flatMap_cons, text_append, List.length_append, List.length_cons]
    simp only [text, List.flatMap_cons, List.flatMap_nil, List.length_append,
      List.length_nil] at this ih ⊢
    show 1 + (_ + 0) + _ ≤ _
    omega

theorem length_lineOfEach_le (label : String) (h : (chars label).length ≤ 25)
    (b : CircularBuffer Int kSeconds) : (text (lineOfEach label b.items)).length ≤ 1286 := by
  have hlength : b.items.length ≤ 60 := b.length_le
  have := length_each_le b.items
  rw [lineOfEach, text_append, List.length_append]
  show (chars label ++ text _).length + 1 ≤ _
  rw [List.length_append]
  omega

/-- Everything fits, and with it a number that would be rejected for its length only. -/
theorem length_pieces_le (queueSize : UInt64) (s : SudokuStat) :
    (text (s.pieces queueSize)).length ≤ 3100 := by
  have hqueue : ((Piece.unsignedLong queueSize).text fun _ => []).length ≤ 20 :=
    length_decimalText_le (by omega) (by have := queueSize.toNat_lt; omega)
  have hfirst : (text [.cString (chars "task_queue_size "), .unsignedLong queueSize,
      .char 10]).length ≤ 37 := by
    simp only [text, List.flatMap_cons, List.flatMap_nil, List.length_append, List.length_nil]
    show 16 + (_ + (1 + 0)) ≤ _
    omega
  have hbad : (text (if s.badLatency_ > 0 then line "bad_latency" s.badLatency_
      else [])).length ≤ 40 := by
    split
    · exact length_line_le _ (by decide) _
    · exact Nat.zero_le 40
  have h₁ := length_line_le "total_requests " (by decide) s.totalRequests_
  have h₂ := length_line_le "total_responses " (by decide) s.totalResponses_
  have h₃ := length_line_le "total_solved " (by decide) s.totalSolved_
  have h₄ := length_line_le "bad_requests " (by decide) s.badRequests_
  have h₅ := length_line_le "dropped_requests " (by decide) s.droppedRequests_
  have h₆ := length_line_le "latency_sum_us " (by decide) s.totalLatency_
  have h₇ := length_line_le "last_second " (by decide) s.lastSecond_
  have h₈ := length_lineOfEach_le "requests_per_second" (by decide) s.requests_
  have h₉ := length_line_le "requests_60s " (by decide) s.requests60s
  have h₁₀ := length_lineOfEach_le "latency_sum_us_per_second" (by decide) s.latencies_
  have h₁₁ := length_line_le "latency_sum_us_60s " (by decide) s.latency60s
  have h₁₂ := length_line_le "latency_us_60s " (by decide) s.latencyAvg60s
  have h₁₃ := length_line_le "latency_us_avg " (by decide) s.latencyAvg
  simp only [pieces, text_append, List.length_append]
  omega

/-- Nothing of the report is dropped, from any state. -/
theorem report_eq (queueSize : UInt64) (data_ : SmallArray) (s : SudokuStat) :
    s.report queueSize data_ = some (text (s.pieces queueSize)) := by
  have hlen := length_pieces_le queueSize s
  obtain ⟨r, hr, -, -, hcontent⟩ :=
    LogStream.insertAll_spec (fun _ => []) (fun _ => by decide) data_ (s.pieces queueSize)
  have hwhole := @LogStream.foldl_accept (fun _ => []) (s.pieces queueSize) []
    (show 0 + (text (s.pieces queueSize)).length + 32 < 4000 by omega)
  rw [report, hr, Option.map_some, hcontent, hwhole, List.nil_append, text]

/-! ### The numbers -/

def lineText (label : String) (vs : List Int) : List UInt8 :=
  chars label ++ vs.flatMap (fun v => 32 :: decimalText v) ++ [10]

/-- A line for everything that there is to tell. -/
def reportText (queueSize : UInt64) (s : SudokuStat) : List UInt8 :=
  lineText "task_queue_size" [queueSize.toNat] ++
  lineText "total_requests" [s.totalRequests_] ++
  lineText "total_responses" [s.totalResponses_] ++
  lineText "total_solved" [s.totalSolved_] ++
  lineText "bad_requests" [s.badRequests_] ++
  lineText "dropped_requests" [s.droppedRequests_] ++
  lineText "latency_sum_us" [s.totalLatency_] ++
  (if s.badLatency_ > 0 then chars "bad_latency" ++ decimalText s.badLatency_ ++ [10] else []) ++
  lineText "last_second" [s.lastSecond_] ++
  lineText "requests_per_second" s.requests_.items ++
  lineText "requests_60s" [s.requests60s] ++
  lineText "latency_sum_us_per_second" s.latencies_.items ++
  lineText "latency_sum_us_60s" [s.latency60s] ++
  lineText "latency_us_60s" [s.latencyAvg60s] ++
  lineText "latency_us_avg" [s.latencyAvg]

theorem text_long {v : Int} (h : 0 ≤ v ∧ v < 9223372036854775808) :
    (Piece.long (Int64.ofInt v)).text (fun _ => []) = decimalText v := by
  rw [Piece.text, Int64.toInt_ofInt_of_le (by omega) (by omega)]

theorem lineText_singleton (label : String) (v : Int) :
    lineText label [v] = chars label ++ ([32] ++ (decimalText v ++ [10])) := by
  rw [lineText, List.flatMap_cons, List.flatMap_nil, List.append_nil, List.append_assoc]
  rfl

theorem text_line (label : String) {blanked : String}
    (hlabel : chars blanked = chars label ++ [32]) {v : Int}
    (h : 0 ≤ v ∧ v < 9223372036854775808) : text (line blanked v) = lineText label [v] := by
  rw [text, line, List.flatMap_cons, List.flatMap_cons, text_long h, Piece.text, hlabel,
    lineText_singleton, List.append_assoc]
  rfl

theorem text_lineOfEach (label : String) {vs : List Int}
    (h : ∀ v ∈ vs, 0 ≤ v ∧ v < 9223372036854775808) :
    text (lineOfEach label vs) = lineText label vs := by
  rw [lineOfEach, text_append, text, text, List.flatMap_cons, List.flatMap_assoc, lineText]
  congr 2
  refine List.flatMap_congr fun v hv => ?_
  rw [List.flatMap_cons, List.flatMap_cons, text_long (h v hv), List.flatMap_nil, List.append_nil]
  rfl

/-- An average is no larger than the sum. -/
theorem average_fits {a b : Int} (h : 0 ≤ a ∧ a < 9223372036854775808) (hb : 0 ≤ b) :
    0 ≤ (if b = 0 then 0 else a.tdiv b) ∧
      (if b = 0 then 0 else a.tdiv b) < 9223372036854775808 := by
  split
  · exact ⟨Int.le_refl 0, by decide⟩
  · have hle := Int.ediv_le_self b h.1
    have hnonneg := Int.ediv_nonneg h.1 hb
    rw [Int.tdiv_eq_ediv_of_nonneg h.1]
    omega

theorem Fits.latencyAvg60s {s : SudokuStat} (h : s.Fits) :
    0 ≤ s.latencyAvg60s ∧ s.latencyAvg60s < 9223372036854775808 :=
  average_fits h.latency60s h.requests60s.1

theorem Fits.latencyAvg {s : SudokuStat} (h : s.Fits) :
    0 ≤ s.latencyAvg ∧ s.latencyAvg < 9223372036854775808 :=
  average_fits (h.totals _ (by simp [SudokuStat.totals]))
    (h.totals _ (by simp [SudokuStat.totals])).1

theorem text_badLatency {v : Int} (h : 0 ≤ v ∧ v < 9223372036854775808) :
    text (if v > 0 then line "bad_latency" v else []) =
      if v > 0 then chars "bad_latency" ++ decimalText v ++ [10] else [] := by
  split
  · rw [text, line, List.flatMap_cons, List.flatMap_cons, text_long h, Piece.text,
      List.append_assoc]
    rfl
  · rfl

theorem Fits.text_pieces {s : SudokuStat} (h : s.Fits) (queueSize : UInt64) :
    text (s.pieces queueSize) = s.reportText queueSize := by
  have htotals := h.totals
  simp only [SudokuStat.totals, List.forall_mem_cons] at htotals
  obtain ⟨h₁, h₂, h₃, h₄, h₅, h₆, h₇, -⟩ := htotals
  have hqueue : text [.cString (chars "task_queue_size "), .unsignedLong queueSize, .char 10] =
      lineText "task_queue_size" [queueSize.toNat] := by
    rw [lineText_singleton]
    rfl
  rw [pieces, reportText]
  simp only [text_append]
  rw [hqueue, text_line "total_requests" (by decide) h₁,
    text_line "total_responses" (by decide) h₂, text_line "total_solved" (by decide) h₃,
    text_line "bad_requests" (by decide) h₄, text_line "dropped_requests" (by decide) h₅,
    text_line "latency_sum_us" (by decide) h₆, text_badLatency h₇,
    text_line "last_second" (by decide) h.lastSecond, text_lineOfEach _ h.requests,
    text_line "requests_60s" (by decide) h.requests60s, text_lineOfEach _ h.latencies,
    text_line "latency_sum_us_60s" (by decide) h.latency60s,
    text_line "latency_us_60s" (by decide) h.latencyAvg60s,
    text_line "latency_us_avg" (by decide) h.latencyAvg]

/-! ### From the calls -/

/-- No report is ever cut off, whatever the members are. As long as there are fewer than 2^63
calls and the latencies add up to less than 2^63 microseconds, it says what the members say,
and they what the calls since the last `reset` have been, or all of them for the requests
dropped. -/
theorem run_reports :
    (∀ (s : SudokuStat) (queueSize : UInt64) (data_ : SmallArray),
      s.report queueSize data_ = some (text (s.pieces queueSize))) ∧
    ∀ calls : List Call, (∀ c ∈ calls, c.Timed) → calls.length < 9223372036854775808 →
      ((timely calls).map Response.elapsed).sum < 9223372036854775808 →
      ∃ s, run call new calls = some s ∧ Tells calls s ∧ ∀ queueSize data_,
        s.report queueSize data_ = some (s.reportText queueSize) := by
  refine ⟨fun s queueSize data_ => report_eq queueSize data_ s, ?_⟩
  intro calls hcalls hlength hlatency
  obtain ⟨s, hs, htells⟩ := tells_new.run hcalls
  rw [List.nil_append] at htells
  refine ⟨s, hs, htells, fun queueSize data_ => ?_⟩
  rw [report_eq, (htells.fits hcalls hlength hlatency).text_pieces]

theorem run_reports_sample :
    ∃ s, run call new sampleCalls = some s ∧ Tells sampleCalls s ∧ ∀ queueSize data_,
      s.report queueSize data_ = some (s.reportText queueSize) :=
  run_reports.2 sampleCalls sampleCalls_timed (by decide) (by decide)

end SudokuStat

end Cnet.Examples.Sudoku
