import Cnet.Support.Runs
import Cnet.Base.Format
import Cnet.Net.Http.Encoding

/-!
# Messages on a stream

A client splits a stream of messages by the usual rule: a head up to the first empty line,
then as many bytes of body as the first `Content-Length` of the head says.
-/

namespace Cnet.Net.Http

open Cnet.Support
open Cnet.Base

structure Message where
  code : Nat
  message : Bytes
  headers : List (Bytes × Bytes)
  body : Bytes
deriving DecidableEq, Repr

def readNumber (text : Bytes) : Option Nat :=
  if text ≠ [] ∧ text.all (fun b => IsDigit b) = true then some (digitsValue text) else none

/-- `VERSION SP CODE SP MESSAGE` -/
def readStatusLine (line : Bytes) : Option (Nat × Bytes) :=
  let version := ascii "HTTP/1.1 "
  let rest := line.drop version.length
  let k := find space rest
  if line.take version.length = version ∧ k ≠ rest.length then
    (readNumber (rest.take k)).map (·, rest.drop (k + 1))
  else none

/-- `NAME ":" SP VALUE` -/
def readHeader (line : Bytes) : Option (Bytes × Bytes) :=
  let k := find colon line
  if (line.drop k).take 2 = ascii ": " then some (line.take k, line.drop (k + 2)) else none

def lowercase (name : Bytes) : Bytes := name.map fun b => if 65 ≤ b ∧ b ≤ 90 then b + 32 else b

/-- The number in the first header of that name, in any case. -/
def contentLength (headers : List (Bytes × Bytes)) : Option Nat :=
  (headers.find? fun entry => lowercase entry.1 = ascii "content-length").bind fun entry =>
    readNumber entry.2

/-- The lines up to the first empty one, and what comes after it. -/
def readLines (s : Bytes) : Option (List Bytes × Bytes) :=
  match h : findCRLF s with
  | none => none
  | some 0 => some ([], s.drop 2)
  | some (k + 1) =>
    have := HttpContext.findCRLF_length h
    (readLines (s.drop (k + 1 + 2))).map fun (lines, rest) => (s.take (k + 1) :: lines, rest)
termination_by s.length

def readHead (lines : List Bytes) : Option (Nat × Bytes × List (Bytes × Bytes)) :=
  match lines with
  | [] => none
  | status :: fields => do
    let (code, message) ← readStatusLine status
    let headers ← fields.mapM readHeader
    return (code, message, headers)

def readMessage (s : Bytes) : Option (Message × Bytes) := do
  let (lines, rest) ← readLines s
  let (code, message, headers) ← readHead lines
  let n ← contentLength headers
  if n ≤ rest.length then return (⟨code, message, headers, rest.take n⟩, rest.drop n) else none

/-- Messages to the end of the stream. -/
def readMessages (s : Bytes) : Option (List Message) :=
  if s = [] then some []
  else match readMessage s with
    | none => none
    | some (m, rest) =>
      if rest.length < s.length then (readMessages rest).map (m :: ·) else none
termination_by s.length

/-! ## Numbers -/

theorem decimal_eq (n : Nat) : decimal n = digitBytes charByte 10 n := by
  have hchars : decimal n = (toString n).toList.map charByte := rfl
  rw [hchars, digitBytes, Nat.toString_eq_repr, Nat.toList_repr]

theorem readNumber_decimal (n : Nat) : readNumber (decimal n) = some n := by
  have hdigits : (digitBytes charByte 10 n).all (fun b => IsDigit b) = true :=
    List.all_eq_true.mpr fun _ hb => decide_eq_true (isDigit_of_mem hb)
  rw [readNumber, decimal_eq, if_pos ⟨digitBytes_ne_nil n, hdigits⟩]
  exact congrArg some (digitsValue_replicate_append 0 n)

theorem length_decimal_le {n k : Nat} (hk : 0 < k) (hn : n < 10 ^ k) : (decimal n).length ≤ k := by
  rw [decimal_eq, digitBytes, List.length_map]
  exact (Nat.length_toDigits_le_iff (by decide) hk).mpr hn

/-- A number has no more digits than a text it is read from. -/
theorem length_decimal_of_readNumber {text : Bytes} {n : Nat} (h : readNumber text = some n) :
    (decimal n).length ≤ text.length := by
  rw [readNumber] at h
  obtain ⟨⟨hne, hdigits⟩, rfl⟩ := eq_of_guarded h
  have hall : ∀ b ∈ text, IsDigit b := fun b hb =>
    of_decide_eq_true (List.all_eq_true.mp hdigits b hb)
  exact length_decimal_le (List.length_pos_of_ne_nil hne) (digitsValue_lt hall)

theorem contentLength_cons {name : Bytes} (h : lowercase name = ascii "content-length")
    (text : Bytes) (headers : List (Bytes × Bytes)) :
    contentLength ((name, text) :: headers) = readNumber text := by
  rw [contentLength, List.find?_cons_of_pos (by exact decide_eq_true h)]
  rfl

/-! ## Lines -/

def statusLine (code : Nat) (message : Bytes) : Bytes :=
  ascii "HTTP/1.1 " ++ decimal code ++ space :: message

theorem readStatusLine_statusLine (code : Nat) (message : Bytes) :
    readStatusLine (statusLine code message) = some (code, message) := by
  have hspace : space ∉ decimal code := by
    rw [decimal_eq]
    exact fun hmem => absurd (isDigit_of_mem hmem).1 (by decide)
  have htake : (statusLine code message).take (ascii "HTTP/1.1 ").length = ascii "HTTP/1.1 " := by
    rw [statusLine, List.append_assoc, List.take_left]
  have hdrop : (statusLine code message).drop (ascii "HTTP/1.1 ").length =
      decimal code ++ space :: message := by
    rw [statusLine, List.append_assoc, List.drop_left]
  have hfind := find_append hspace message
  have hne : (decimal code).length ≠ (decimal code ++ space :: message).length := by
    rw [List.length_append, List.length_cons]
    omega
  rw [readStatusLine, htake, hdrop, hfind, if_pos ⟨rfl, hne⟩, take_append_cons, drop_append_cons,
    readNumber_decimal]
  rfl

theorem length_of_readStatusLine {line message : Bytes} {code : Nat}
    (h : readStatusLine line = some (code, message)) :
    (statusLine code message).length ≤ line.length := by
  rw [readStatusLine] at h
  by_cases hcond : line.take (ascii "HTTP/1.1 ").length = ascii "HTTP/1.1 " ∧
      find space (line.drop (ascii "HTTP/1.1 ").length) ≠
        (line.drop (ascii "HTTP/1.1 ").length).length
  · rw [if_pos hcond] at h
    obtain ⟨htake, hfind⟩ := hcond
    obtain ⟨front, rest, hrest, hfront⟩ := exists_of_find_ne hfind
    have hline : line = ascii "HTTP/1.1 " ++ (front ++ space :: rest) := by
      calc line = line.take (ascii "HTTP/1.1 ").length ++ line.drop (ascii "HTTP/1.1 ").length :=
            (List.take_append_drop _ _).symm
        _ = _ := by rw [htake, hrest]
    rw [hrest, find_append hfront, take_append_cons, drop_append_cons] at h
    obtain ⟨n, hnumber, heq⟩ := Option.map_eq_some_iff.mp h
    obtain ⟨rfl, rfl⟩ := Prod.mk.inj heq
    have hle := length_decimal_of_readNumber hnumber
    rw [hline, statusLine]
    simp only [List.length_append, List.length_cons]
    omega
  · rw [if_neg hcond] at h
    exact absurd h.symm (Option.some_ne_none _)

theorem readHeader_headerLine {entry : Bytes × Bytes} (hname : colon ∉ entry.1) :
    readHeader (headerLine entry) = some entry := by
  have hline : headerLine entry = entry.1 ++ colon :: (space :: entry.2) := by
    rw [headerLine, List.append_assoc]
    rfl
  have hdrop : (headerLine entry).drop entry.1.length = ascii ": " ++ entry.2 := by
    rw [headerLine, List.append_assoc, List.drop_left]
  have hvalue : (headerLine entry).drop (entry.1.length + 2) = entry.2 := by
    rw [← List.drop_drop, hdrop]
    exact List.drop_left' rfl
  have hfind : find colon (headerLine entry) = entry.1.length := by
    rw [hline, find_append hname]
  have htake : (headerLine entry).take entry.1.length = entry.1 := by
    rw [hline, take_append_cons]
  have hsep : (ascii ": " ++ entry.2).take 2 = ascii ": " :=
    List.take_left' rfl
  rw [readHeader, hfind, hdrop, if_pos hsep, htake, hvalue]

/-- What is read of a header line is all of it. -/
theorem headerLine_of_readHeader {line : Bytes} {entry : Bytes × Bytes}
    (h : readHeader line = some entry) : headerLine entry = line := by
  rw [readHeader] at h
  obtain ⟨hsep, rfl⟩ := eq_of_guarded h
  calc headerLine (line.take (find colon line), line.drop (find colon line + 2))
      = line.take (find colon line) ++ ((line.drop (find colon line)).take 2 ++
          (line.drop (find colon line)).drop 2) := by
        rw [headerLine, hsep, List.drop_drop, List.append_assoc]
    _ = line := by rw [List.take_append_drop, List.take_append_drop]

theorem readHeaders_headerLines {entries : List (Bytes × Bytes)}
    (h : ∀ entry ∈ entries, colon ∉ entry.1) :
    (entries.map headerLine).mapM readHeader = some entries := by
  induction entries with
  | nil => rfl
  | cons entry entries ih =>
    obtain ⟨hname, hrest⟩ := List.forall_mem_cons.mp h
    rw [List.map_cons, List.mapM_cons, readHeader_headerLine hname, ih hrest]
    rfl

theorem headerLines_of_readHeaders {lines : List Bytes} {entries : List (Bytes × Bytes)}
    (h : lines.mapM readHeader = some entries) : entries.map headerLine = lines := by
  induction lines generalizing entries with
  | nil =>
    obtain rfl := Option.some.inj h
    rfl
  | cons line lines ih =>
    rw [List.mapM_cons] at h
    obtain ⟨entry, hentry, h⟩ := Option.bind_eq_some_iff.mp h
    obtain ⟨rest, hrest, h⟩ := Option.bind_eq_some_iff.mp h
    obtain rfl := Option.some.inj h
    rw [List.map_cons, headerLine_of_readHeader hentry, ih hrest]

/-- Lines with their ends, and the empty line. -/
def linesText (lines : List Bytes) : Bytes := lines.flatMap (· ++ crlf) ++ crlf

theorem readLines_of_findCRLF {s : Bytes} {k : Nat} (h : findCRLF s = some k) :
    readLines s = if k = 0 then some ([], s.drop 2)
      else (readLines (s.drop (k + 2))).map fun (lines, rest) => (s.take k :: lines, rest) := by
  rw [readLines]
  split
  · next hnone =>
    rw [h] at hnone
    exact absurd hnone (Option.some_ne_none k)
  · next hzero =>
    obtain rfl := Option.some.inj (h.symm.trans hzero)
    rfl
  · next j hsucc =>
    obtain rfl := Option.some.inj (h.symm.trans hsucc)
    rfl

theorem readLines_linesText {lines : List Bytes} (h : ∀ line ∈ lines, line ≠ [] ∧ CR ∉ line)
    (rest : Bytes) : readLines (linesText lines ++ rest) = some (lines, rest) := by
  induction lines with
  | nil =>
    have hfind : findCRLF (crlf ++ rest) = some 0 := findCRLF_append (show IsLine [] from rfl) rest
    show readLines (crlf ++ rest) = _
    rw [readLines_of_findCRLF hfind, if_pos rfl]
    rfl
  | cons line lines ih =>
    obtain ⟨⟨hne, hcr⟩, htail⟩ := List.forall_mem_cons.mp h
    have htext : linesText (line :: lines) ++ rest = line ++ crlf ++ (linesText lines ++ rest) := by
      rw [linesText, linesText, List.flatMap_cons]
      simp only [List.append_assoc]
    have hfind := findCRLF_append (isLine_of_notMem hcr) (linesText lines ++ rest)
    have hlen : line.length ≠ 0 := fun hzero => hne (List.length_eq_zero_iff.mp hzero)
    rw [htext, readLines_of_findCRLF hfind, if_neg hlen, drop_line, take_line, ih htail]
    rfl

theorem readLines_inv {s rest : Bytes} {lines : List Bytes}
    (h : readLines s = some (lines, rest)) :
    ∃ line tail, s = line ++ crlf ++ tail ∧ (line = [] ∧ lines = [] ∧ rest = tail ∨
      ∃ ls, lines = line :: ls ∧ readLines tail = some (ls, rest)) := by
  cases hfind : findCRLF s with
  | none =>
    rw [readLines] at h
    split at h
    · exact absurd h.symm (Option.some_ne_none _)
    · next hzero => exact absurd (hfind.symm.trans hzero).symm (Option.some_ne_none _)
    · next hsucc => exact absurd (hfind.symm.trans hsucc).symm (Option.some_ne_none _)
  | some k =>
    rw [readLines_of_findCRLF hfind] at h
    obtain ⟨line, tail, rfl, -, rfl⟩ := exists_of_findCRLF hfind
    refine ⟨line, tail, rfl, ?_⟩
    rw [drop_line, take_line] at h
    by_cases hzero : line.length = 0
    · obtain rfl := List.length_eq_zero_iff.mp hzero
      rw [if_pos hzero] at h
      obtain ⟨rfl, rfl⟩ := Prod.mk.inj (Option.some.inj h)
      exact .inl ⟨rfl, rfl, rfl⟩
    · rw [if_neg hzero] at h
      obtain ⟨⟨ls, rest'⟩, hread, heq⟩ := Option.map_eq_some_iff.mp h
      obtain ⟨rfl, rfl⟩ := Prod.mk.inj heq
      exact .inr ⟨ls, rfl, hread⟩

/-- What is read in lines is all that is taken. -/
theorem length_of_readLines {s rest : Bytes} {lines : List Bytes}
    (h : readLines s = some (lines, rest)) : s.length = (linesText lines).length + rest.length := by
  induction lines generalizing s with
  | nil =>
    obtain ⟨line, tail, rfl, ⟨rfl, -, rfl⟩ | ⟨ls, hcons, -⟩⟩ := readLines_inv h
    · exact List.length_append
    · exact absurd hcons.symm (List.cons_ne_nil line ls)
  | cons line lines ih =>
    obtain ⟨line', tail, rfl, ⟨-, hnil, -⟩ | ⟨ls, hcons, hread⟩⟩ := readLines_inv h
    · exact absurd hnil (List.cons_ne_nil line lines)
    · obtain ⟨rfl, rfl⟩ := List.cons.inj hcons
      have hlen := ih hread
      have htext : linesText (line :: lines) = line ++ crlf ++ linesText lines := by
        rw [linesText, linesText, List.flatMap_cons, List.append_assoc]
      have hcount : (line ++ crlf ++ linesText lines).length =
          (line ++ crlf).length + (linesText lines).length := List.length_append
      rw [htext, List.length_append, hlen, hcount, Nat.add_assoc]

/-! ## Messages -/

namespace Message

/-- The lines of the head, as a server writes them. -/
def lines (m : Message) : List Bytes := statusLine m.code m.message :: m.headers.map headerLine

/-- The whole message, as a server writes it. -/
def text (m : Message) : Bytes := linesText m.lines ++ m.body

/-- What a client can split off: no field has a line end in it, no name a colon, and the
length is that of the body. -/
structure Splits (m : Message) : Prop where
  message : CR ∉ m.message
  name : ∀ entry ∈ m.headers, colon ∉ entry.1 ∧ CR ∉ entry.1
  value : ∀ entry ∈ m.headers, CR ∉ entry.2
  length : contentLength m.headers = some m.body.length

end Message

theorem readHead_lines {m : Message} (h : m.Splits) :
    readHead m.lines = some (m.code, m.message, m.headers) := by
  rw [Message.lines, readHead, readStatusLine_statusLine]
  simp only [Option.bind_eq_bind, Option.bind_some]
  rw [readHeaders_headerLines fun entry hentry => (h.name entry hentry).1]
  rfl

theorem readLines_lines {m : Message} (h : m.Splits) (rest : Bytes) :
    readLines (linesText m.lines ++ rest) = some (m.lines, rest) := by
  apply readLines_linesText
  rw [Message.lines]
  refine List.forall_mem_cons.mpr ⟨⟨?_, ?_⟩, fun line hline => ?_⟩
  · exact List.append_ne_nil_of_right_ne_nil _ (List.cons_ne_nil _ _)
  · have hversion : CR ∉ ascii "HTTP/1.1 " := by decide
    have hcode : CR ∉ decimal m.code := by
      rw [decimal_eq]
      exact fun hmem => absurd (isDigit_of_mem hmem).1 (by decide)
    have hspace : CR ≠ space := by decide
    rw [statusLine, List.mem_append, List.mem_append, List.mem_cons]
    rintro ((hmem | hmem) | hmem | hmem)
    · exact hversion hmem
    · exact hcode hmem
    · exact hspace hmem
    · exact h.message hmem
  · obtain ⟨entry, hentry, rfl⟩ := List.mem_map.mp hline
    have hsep : CR ∉ ascii ": " := by decide
    rw [headerLine]
    refine ⟨?_, ?_⟩
    · exact List.append_ne_nil_of_left_ne_nil
        (List.append_ne_nil_of_right_ne_nil _ (List.cons_ne_nil _ _)) _
    · rw [List.mem_append, List.mem_append]
      rintro ((hmem | hmem) | hmem)
      · exact (h.name entry hentry).2 hmem
      · exact hsep hmem
      · exact h.value entry hentry hmem

/-- A message is read off the front of the stream, and what comes after it is left. -/
theorem readMessage_text {m : Message} (h : m.Splits) (rest : Bytes) :
    readMessage (m.text ++ rest) = some (m, rest) := by
  have hle : m.body.length ≤ (m.body ++ rest).length := by
    rw [List.length_append]
    omega
  rw [Message.text, List.append_assoc, readMessage, readLines_lines h]
  simp only [Option.bind_eq_bind, Option.bind_some, readHead_lines h, h.length, if_pos hle,
    List.take_left, List.drop_left]
  rfl

theorem readMessages_text {ms : List Message} (h : ∀ m ∈ ms, m.Splits) :
    readMessages (ms.flatMap Message.text) = some ms := by
  induction ms with
  | nil => rw [List.flatMap_nil, readMessages, if_pos rfl]
  | cons m ms ih =>
    obtain ⟨hm, hms⟩ := List.forall_mem_cons.mp h
    have hne : m.text ≠ [] := List.append_ne_nil_of_left_ne_nil
      (List.append_ne_nil_of_right_ne_nil _ (List.cons_ne_nil CR [LF])) _
    have hlt : (ms.flatMap Message.text).length < (m.text ++ ms.flatMap Message.text).length := by
      have := List.length_pos_of_ne_nil hne
      rw [List.length_append]
      omega
    rw [List.flatMap_cons, readMessages, if_neg (List.append_ne_nil_of_left_ne_nil hne _),
      readMessage_text hm]
    dsimp only
    rw [if_pos hlt, ih hms]
    rfl

theorem length_of_readHead {lines : List Bytes} {code : Nat} {message : Bytes}
    {headers : List (Bytes × Bytes)} (h : readHead lines = some (code, message, headers)) :
    (linesText (statusLine code message :: headers.map headerLine)).length ≤
      (linesText lines).length := by
  cases lines with
  | nil => exact absurd h.symm (Option.some_ne_none _)
  | cons status fields =>
    obtain ⟨⟨code', message'⟩, hstatus, h⟩ := Option.bind_eq_some_iff.mp h
    obtain ⟨headers', hheaders, h⟩ := Option.bind_eq_some_iff.mp h
    obtain ⟨rfl, hrest⟩ := Prod.mk.inj (Option.some.inj h)
    obtain ⟨rfl, rfl⟩ := Prod.mk.inj hrest
    have hle := length_of_readStatusLine hstatus
    rw [headerLines_of_readHeaders hheaders, linesText, linesText, List.flatMap_cons,
      List.flatMap_cons]
    simp only [List.length_append]
    omega

/-- What is read as a message has the bytes of the message at least. -/
theorem length_of_readMessage {s rest : Bytes} {m : Message} (h : readMessage s = some (m, rest)) :
    m.text.length + rest.length ≤ s.length := by
  rw [readMessage] at h
  obtain ⟨⟨lines, tail⟩, hlines, h⟩ := Option.bind_eq_some_iff.mp h
  obtain ⟨⟨code, message, headers⟩, hhead, h⟩ := Option.bind_eq_some_iff.mp h
  obtain ⟨n, -, h⟩ := Option.bind_eq_some_iff.mp h
  obtain ⟨hle, heq⟩ := eq_of_guarded h
  obtain ⟨rfl, rfl⟩ := Prod.mk.inj heq
  have hs := length_of_readLines hlines
  have hhead := length_of_readHead hhead
  show (linesText _ ++ tail.take n).length + (tail.drop n).length ≤ s.length
  rw [List.length_append, List.length_take_of_le hle, List.length_drop, hs]
  show (linesText (statusLine code message :: headers.map headerLine)).length + n + _ ≤ _
  omega

theorem length_of_readMessages {s : Bytes} {ms : List Message} (h : readMessages s = some ms) :
    (ms.flatMap Message.text).length ≤ s.length := by
  induction ms generalizing s with
  | nil => exact Nat.zero_le _
  | cons m ms ih =>
    rw [readMessages] at h
    by_cases hnil : s = []
    · rw [if_pos hnil] at h
      exact absurd (Option.some.inj h).symm (List.cons_ne_nil m ms)
    · rw [if_neg hnil] at h
      cases hread : readMessage s with
      | none =>
        rw [hread] at h
        exact absurd h.symm (Option.some_ne_none _)
      | some p =>
        obtain ⟨m', rest⟩ := p
        rw [hread] at h
        dsimp only at h
        by_cases hlt : rest.length < s.length
        · rw [if_pos hlt] at h
          obtain ⟨ms', hms, heq⟩ := Option.map_eq_some_iff.mp h
          obtain ⟨rfl, rfl⟩ := List.cons.inj heq
          have hle := length_of_readMessage hread
          have hrest := ih hms
          rw [List.flatMap_cons, List.length_append]
          omega
        · rw [if_neg hlt] at h
          exact absurd h.symm (Option.some_ne_none _)

end Cnet.Net.Http
