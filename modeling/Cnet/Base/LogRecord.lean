import Cnet.Base.Logging

/-!
# How a record ends

The trailer ends with a newline, and goes into the stream piece by piece. The newline
finds no room exactly when the pieces before it leave one or two bytes: whether they do
depends on the lengths of the message and of the name of the file.
-/

namespace Cnet.Base

open Cnet.Support

namespace Logger

/-- The last byte is a newline. -/
def EndsLine (record : List UInt8) : Prop := record.getLast? = some 10

instance (record : List UInt8) : Decidable (EndsLine record) :=
  inferInstanceAs (Decidable (record.getLast? = some 10))

/-- When `message` is in the stream and `name` is that of the file, either the newline
finds room, or the array is full and a newline is already there. -/
@[mk_iff]
inductive NewlineFits (message name : List UInt8) : Prop where
  | whole (h : message.length + name.length ≤ 3994)
  | nameRefused (h : message.length ≤ 3994) (h' : 3997 ≤ message.length + name.length)
  | dashRefused (h : message.length = 3997) (h' : name.length ≠ 1) (h'' : name.length ≠ 2)
  | messageEnds (h : message.length = 3999) (h' : EndsLine message)
  | nameEnds (h : message.length + name.length = 3996) (h' : EndsLine name)
  | nameEndsAlone (h : 3997 ≤ message.length) (h' : message.length + name.length = 3999)
      (h'' : EndsLine name)

variable {format : Float → List UInt8} {c : List UInt8}

/-- What a piece without a number leaves: `d` is its text. -/
theorem accept_text {p : Piece} {d : List UInt8}
    (hp : ∀ avail, p.HasRoom format avail ↔ d.length < avail) (hd : p.text format = d) :
    p.accept format c = if c.length + d.length < 4000 then c ++ d else c := by
  rw [Piece.accept, hd]
  refine if_congr ((hp _).trans ?_) rfl rfl
  rw [kSmallBuffer]
  omega

theorem length_accept_lt (hc : c.length < 4000) {p : Piece} {d : List UInt8}
    (hp : ∀ avail, p.HasRoom format avail ↔ d.length < avail) (hd : p.text format = d) :
    (p.accept format c).length < 4000 := by
  rw [accept_text hp hd]
  split
  · rwa [List.length_append]
  · exact hc

theorem endsLine_append {d : List UInt8} (hd : d ≠ []) : EndsLine (c ++ d) ↔ EndsLine d := by
  rw [EndsLine, EndsLine, List.getLast?_append_of_ne_nil c hd]

/-- The number of the line is refused, or leaves room for the newline. -/
theorem accept_line (line : Int32) (c : List UInt8) :
    c.length ≤ 3968 ∧ ((Piece.int line).accept format c).length ≤ 3998 ∨
      3968 < c.length ∧ (Piece.int line).accept format c = c := by
  by_cases hroom : (Piece.int line).HasRoom format (kSmallBuffer - c.length)
  · have hroom' : 32 ≤ 4000 - c.length := hroom
    have hlen : (decimalText line.toInt).length ≤ 20 :=
      length_decimalText_le (by have := line.le_toInt; omega) (by have := line.toInt_lt; omega)
    refine .inl ⟨by omega, ?_⟩
    rw [Piece.accept, if_pos hroom, List.length_append]
    show c.length + (decimalText line.toInt).length ≤ 3998
    omega
  · have hroom' : ¬ 32 ≤ 4000 - c.length := hroom
    exact .inr ⟨by omega, if_neg hroom⟩

/-- One byte more, if there is room. -/
theorem accept_char (b : UInt8) :
    (Piece.char b).accept format c = if c.length < 3999 then c ++ [b] else c := by
  rw [accept_text (d := [b]) (fun _ => Iff.rfl) rfl]
  refine if_congr ?_ rfl rfl
  rw [List.length_singleton]
  omega

/-- After the name of the file comes a colon, after it the line if there is room, and then
the newline. -/
theorem trailer_end (line : Int32) (hc : c.length < 4000) :
    EndsLine ([Piece.char 58, .int line, .char 10].foldl (Piece.accept format) c) ↔
      c.length ≤ 3997 ∨ c.length = 3999 ∧ EndsLine c := by
  simp only [List.foldl_cons, List.foldl_nil]
  have hnewline : ∀ d : List UInt8, d.length ≤ 3998 →
      EndsLine ((Piece.char 10).accept format d) := fun d hd => by
    rw [accept_char, if_pos (by omega)]
    exact (endsLine_append (List.cons_ne_nil _ _)).mpr rfl
  set c₃ := (Piece.char 58).accept format c with hc₃
  rw [accept_char] at hc₃
  have hlen : c₃.length = if c.length < 3999 then c.length + 1 else c.length := by
    rw [hc₃, apply_ite List.length, List.length_append, List.length_singleton]
  by_cases hroom : c.length ≤ 3997
  · refine iff_of_true ?_ (.inl hroom)
    rw [if_pos (by omega)] at hlen
    rcases accept_line line c₃ with ⟨-, hshort⟩ | ⟨-, hsame⟩
    · exact hnewline _ hshort
    · rw [hsame]
      exact hnewline _ (by omega)
  · have hfull : c₃.length = 3999 := by
      rw [hlen]
      split_ifs <;> omega
    obtain ⟨-, hsame⟩ := (accept_line line c₃).resolve_left (by omega)
    rw [hsame, accept_char, if_neg (by omega), hc₃]
    by_cases hone : c.length = 3998
    · rw [if_pos (by omega)]
      refine iff_of_false (fun h => ?_) (by omega)
      exact absurd ((endsLine_append (List.cons_ne_nil _ _)).mp h) (by decide)
    · rw [if_neg (by omega)]
      exact ⟨fun h => .inr ⟨by omega, h⟩, fun h => (h.resolve_left hroom).2⟩

/-- The beginning of the trailer, up to the name of the file. -/
theorem trailer_name (name : List UInt8) (hc : c.length < 4000) {c₂ : List UInt8}
    (hc₂ : c₂ = [Piece.cString (some (chars " - ")), .stringPiece name].foldl
      (Piece.accept format) c) :
    (c₂.length ≤ 3997 ∨ c₂.length = 3999 ∧ EndsLine c₂) ↔ NewlineFits c name := by
  have hdash : (chars " - ").length = 3 := rfl
  have hspace : ¬ EndsLine (c ++ chars " - ") :=
    (endsLine_append (List.cons_ne_nil _ _)).not.mpr (by decide)
  have hname : ∀ d : List UInt8,
      EndsLine (d ++ name) ↔ name.length = 0 ∧ EndsLine d ∨ EndsLine name := fun d => by
    by_cases hnil : name = []
    · rw [hnil, List.append_nil]
      exact ⟨fun h => .inl ⟨rfl, h⟩, fun h => h.elim And.right fun h => absurd h (by decide)⟩
    · rw [endsLine_append hnil, or_iff_right]
      exact fun h => hnil (List.length_eq_zero_iff.mp h.1)
  have hnil : EndsLine name → name.length ≠ 0 := fun h hzero => by
    rw [List.length_eq_zero_iff.mp hzero] at h
    exact absurd h (by decide)
  simp only [List.foldl_cons, List.foldl_nil] at hc₂
  set c₁ := (Piece.cString (some (chars " - "))).accept format c with hc₁
  rw [accept_text (d := chars " - ") (fun _ => Iff.rfl) rfl, hdash] at hc₁
  rw [accept_text (d := name) (fun _ => Iff.rfl) rfl] at hc₂
  have hcases : c.length ≤ 3996 ∧ c₁.length = c.length + 3 ∧ ¬ EndsLine c₁ ∨
      3997 ≤ c.length ∧ c₁ = c := by
    by_cases hfits : c.length + 3 < 4000
    · rw [if_pos hfits] at hc₁
      exact .inl ⟨by omega, by rw [hc₁, List.length_append, hdash], hc₁ ▸ hspace⟩
    · rw [if_neg hfits] at hc₁
      exact .inr ⟨by omega, hc₁⟩
  rw [newlineFits_iff]
  by_cases hfits : c₁.length + name.length < 4000
  · rw [if_pos hfits] at hc₂
    rw [hc₂, List.length_append, hname]
    rcases hcases with ⟨hle, hlen, hends⟩ | ⟨hle, heq⟩
    · rw [hlen] at hfits ⊢
      grind
    · rw [heq] at hfits ⊢
      grind
  · rw [if_neg hfits] at hc₂
    rw [hc₂]
    rcases hcases with ⟨hle, hlen, hends⟩ | ⟨hle, heq⟩
    · rw [hlen] at hfits ⊢
      grind
    · rw [heq] at hfits ⊢
      grind

variable {ctx : LogContext} {s s' : LogStream}

theorem insertT_inside (h : s.Inside) {str : List UInt8} {len : Nat}
    (hins : insertT s str len = some s') : s'.Inside := by
  obtain ⟨-, happend⟩ := bind_assert.mp hins
  obtain ⟨s₁, hs₁, hinside, -⟩ := LogStream.append_puts h str
  exact Option.some.inj (hs₁.symm.trans happend) ▸ hinside

theorem formatTime_inside (h : s.Inside) {zone : TimeZone} {time_ : Int} {t t' : LogThread}
    (htime : formatTime zone time_ t s = some (t', s')) : s'.Inside := by
  obtain ⟨t₁, -, htime⟩ := Option.bind_eq_some_iff.mp htime
  obtain ⟨s₁, hs₁, htime⟩ := Option.bind_eq_some_iff.mp htime
  obtain ⟨s₂, hs₂, htime⟩ := Option.bind_eq_some_iff.mp htime
  cases htime
  exact insertT_inside (insertT_inside h hs₁) hs₂

theorem insertAll_some_inside (hformat : ∀ v, (ctx.format v).length < 32) (h : s.Inside)
    {pieces : List Piece} (hins : s.insertAll ctx.format pieces = some s') : s'.Inside := by
  obtain ⟨s₁, hs₁, hinside, -⟩ := LogStream.insertAll_inside h hformat pieces
  exact Option.some.inj (hs₁.symm.trans hins) ▸ hinside

variable {data_ : SmallArray} {now : Int} {t t' : LogThread} {level : LogLevel} {file : List UInt8}
  {line savedErrno : Int32} {l : Logger}

theorem impl_inside (hformat : ∀ v, (ctx.format v).length < 32)
    (hnew : impl ctx data_ now t level savedErrno file line = some (t', l)) : l.stream_.Inside := by
  obtain ⟨⟨t₁, s₁⟩, hs₁, hnew⟩ := Option.bind_eq_some_iff.mp hnew
  obtain ⟨s₂, hs₂, hnew⟩ := Option.bind_eq_some_iff.mp hnew
  obtain ⟨s₃, hs₃, hnew⟩ := Option.bind_eq_some_iff.mp hnew
  obtain ⟨s₄, hs₄, hnew⟩ := Option.bind_eq_some_iff.mp hnew
  cases hnew
  have hinside₁ := formatTime_inside (s := .new data_) (by decide : 0 < kSmallBuffer) hs₁
  exact insertAll_some_inside hformat (insertT_inside (insertT_inside hinside₁ hs₂) hs₃) hs₄

/-- The header leaves the last byte of the array free. -/
theorem construct_inside (hformat : ∀ v, (ctx.format v).length < 32) {how : Construction}
    (hnew : construct ctx data_ now t file line how = some (t', l)) : l.stream_.Inside := by
  cases how with
  | info => exact impl_inside hformat hnew
  | leveled level => exact impl_inside hformat hnew
  | function level func =>
    obtain ⟨⟨t₁, l₁⟩, hl₁, hnew⟩ := Option.bind_eq_some_iff.mp hnew
    obtain ⟨s₂, hs₂, hnew⟩ := Option.bind_eq_some_iff.mp hnew
    cases hnew
    exact insertAll_some_inside hformat (impl_inside hformat hl₁) hs₂
  | system toAbort errno => exact impl_inside hformat hnew

/-- The record that `~Logger` hands on, whatever has been inserted. -/
theorem endsLine_iff (hformat : ∀ v, (ctx.format v).length < 32) {how : Construction}
    (hnew : construct ctx data_ now t file line how = some (t', l)) (pieces : List Piece) :
    ∃ before record, l.insertAll ctx pieces = some before ∧
      before.destroy ctx = some (record, decide (before.level_ = .FATAL)) ∧
        (EndsLine record ↔ NewlineFits before.stream_.content before.basename_) := by
  obtain ⟨s₁, hs₁, hinside₁, -⟩ :=
    LogStream.insertAll_inside (construct_inside hformat hnew) hformat pieces
  obtain ⟨s₂, hs₂, hinside₂, hcontent⟩ := LogStream.insertAll_inside hinside₁ hformat
    (trailer { l with stream_ := s₁ })
  refine ⟨{ l with stream_ := s₁ }, s₂.content, ?_, ?_, ?_⟩
  · rw [insertAll, hs₁]
    rfl
  · rw [destroy, finish, insertAll, hs₂]
    rfl
  · have hc : s₁.content.length < 4000 := by
      rw [LogStream.length_content hinside₁]
      exact hinside₁
    have hname : ([Piece.cString (some (chars " - ")), .stringPiece l.basename_].foldl
        (Piece.accept ctx.format) s₁.content).length < 4000 := by
      rw [List.foldl_cons, List.foldl_cons, List.foldl_nil]
      exact length_accept_lt (length_accept_lt hc (fun _ => Iff.rfl) rfl) (fun _ => Iff.rfl) rfl
    have hsplit : trailer { l with stream_ := s₁ } =
        [.cString (some (chars " - ")), .stringPiece l.basename_] ++
          [.char 58, .int l.line_, .char 10] := rfl
    rw [hcontent, hsplit, List.foldl_append]
    exact (trailer_end l.line_ hname).trans (trailer_name l.basename_ hc rfl)

def sampleContext : LogContext where
  g_logTimeZone := ⟨none⟩
  strerror := fun _ => chars "Success"
  format := fun _ => chars "0"

/-- A logger for line 7 of a file, in a new thread. -/
def sample : Option (LogThread × Logger) :=
  construct sampleContext LogStream.zeros 1500000000000000 ⟨[], 0, 1234⟩ (chars "base/a.cc") 7 .info

theorem sample_isSome : sample.isSome = true := by decide +kernel

theorem length_format_sample (v : Float) : (sampleContext.format v).length < 32 :=
  (by decide : (chars "0").length < 32)

theorem endsLine_iff_sample :
    ∃ t' l, construct sampleContext LogStream.zeros 1500000000000000 ⟨[], 0, 1234⟩
      (chars "base/a.cc") 7 .info = some (t', l) ∧
      ∃ before record, l.insertAll sampleContext [.string (chars "hello")] = some before ∧
        before.destroy sampleContext = some (record, decide (before.level_ = .FATAL)) ∧
          (EndsLine record ↔ NewlineFits before.stream_.content before.basename_) := by
  obtain ⟨⟨t', l⟩, hnew⟩ := Option.isSome_iff_exists.mp sample_isSome
  exact ⟨t', l, hnew, endsLine_iff length_format_sample hnew _⟩

/-- A message after which three bytes are left. -/
def fullMessage : List Piece := [.string (List.replicate 3957 65)]

theorem endsLine_fails_full :
    ¬ ∀ (ctx : LogContext), (∀ v, (ctx.format v).length < 32) →
      ∀ data_ now t file line how t' l, construct ctx data_ now t file line how = some (t', l) →
        ∀ pieces before record aborts, l.insertAll ctx pieces = some before →
          before.destroy ctx = some (record, aborts) → EndsLine record := by
  intro h
  have hbad : (sample.any fun made =>
      (made.2.insertAll sampleContext fullMessage).any fun before =>
        (before.destroy sampleContext).any fun ended => !decide (EndsLine ended.1)) = true := by
    decide +kernel
  obtain ⟨⟨t', l⟩, hnew⟩ := Option.isSome_iff_exists.mp sample_isSome
  rw [hnew, Option.any_some] at hbad
  obtain ⟨before, hbefore, hbad⟩ := (Option.any_eq_true ..).mp hbad
  obtain ⟨⟨record, aborts⟩, hrecord, hbad⟩ := (Option.any_eq_true ..).mp hbad
  have hends := h sampleContext length_format_sample _ _ _ _ _ _ t' l hnew fullMessage before record
    aborts hbefore hrecord
  exact of_decide_eq_false (Bool.not_eq_true' _ ▸ hbad) hends

end Logger

end Cnet.Base
