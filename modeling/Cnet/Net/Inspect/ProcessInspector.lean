import Cnet.Base.ProcessInfo

/-!
# The process inspector

What the list of threads takes from a `/proc/PID/task/TID/stat`. Times are left in clock
ticks. A `long` has 64 bits.
-/

namespace Cnet.Net.ProcessInspector

open Cnet.Base
open Cnet.Support (assert assert_pos overwrite)

def longMin : Int := -0x8000000000000000

def longMax : Int := 0x7fffffffffffffff

/-- `isspace` in the C locale. -/
def isSpace (b : UInt8) : Bool := b = 32 || (9 ≤ b && b ≤ 13)

theorem isSpace_of_isDigit {b : UInt8} (h : IsDigit b) : isSpace b = false := by
  refine Bool.or_eq_false_iff.mpr ⟨decide_eq_false ?_, Bool.and_eq_false_iff.mpr (Or.inr
    (decide_eq_false ?_))⟩
  · rintro rfl
    exact absurd h.1 (by decide)
  · exact fun hle => absurd (UInt8.le_trans h.1 hle) (by decide)

/-- `strtol(text, NULL, 10)`, on a text that ends before a zero. -/
def strtol (text : List UInt8) : Int :=
  let text := text.dropWhile isSpace
  let negative : Bool := text.head? = some (charByte '-')
  let text := if negative || text.head? = some (charByte '+') then text.tail else text
  let value : Int := digitsValue (text.takeWhile fun b => IsDigit b)
  max longMin (min longMax (if negative then -value else value))

/-- What follows the next blank. -/
def next (data : StringPiece) : Option StringPiece := do
  let bytes ← data.bytes
  match bytes.idxOf? (charByte ' ') with
  | some sp => data.removePrefix (castInt (sp + 1 : Nat))
  | none => some (.ofString [])

structure CpuTime where
  user : Int
  system : Int
deriving DecidableEq, Repr

/-- The loop of `getCpuTime`. -/
def skip : Nat → StringPiece → Option StringPiece
  | 0, data => some data
  | n + 1, data => do
    let data ← next data
    skip n data

def getCpuTime (data : StringPiece) : Option CpuTime := do
  let data ← skip 10 data
  let user := strtol data.data
  let data ← next data
  some ⟨user, strtol data.data⟩

/-- What is printed of a thread. -/
structure Thread where
  name : List UInt8
  state : UInt8
  cpuTime : CpuTime
deriving DecidableEq, Repr

/-- The part of `threads` after `readFile`. It ends the name by writing a zero over the
parenthesis. -/
def thread (stat : List UInt8) : Option Thread := do
  let name := ProcessInfo.procname stat
  let rp := name.end_
  assert (rp.head? = some (charByte ')'))
  let begin_ := stat.length - name.ptr_.length
  let end_ := stat.length - rp.length
  let state := end_ + 2
  let stat := overwrite stat end_ [0]
  let data ← (StringPiece.ofString stat).removePrefix (castInt (state + 2 : Nat))
  let t ← getCpuTime data
  let c ← stat[state]?
  some ⟨(stat.drop begin_).takeWhile (· ≠ 0), c, t⟩

theorem next_ofString {field : List UInt8} (h : charByte ' ' ∉ field) {rest : List UInt8}
    (hlen : (field ++ charByte ' ' :: rest).length < 2147483648) :
    next (.ofString (field ++ charByte ' ' :: rest)) = some (.ofString rest) := by
  have hsplit : field ++ charByte ' ' :: rest = (field ++ [charByte ' ']) ++ rest := by
    rw [List.append_assoc, List.singleton_append]
  have hprefix := StringPiece.removePrefix_ofString (hsplit ▸ hlen)
  rw [List.length_append, List.length_singleton, ← hsplit] at hprefix
  rw [next, StringPiece.bytes_ofString (passesInt_of_lt hlen), Option.bind_eq_bind,
    Option.bind_some, ProcessInfo.idxOf?_append_cons h]
  exact hprefix

end Cnet.Net.ProcessInspector
