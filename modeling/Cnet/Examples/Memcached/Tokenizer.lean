import Mathlib.Data.List.TakeWhile
import Cnet.Net.Buffer
import Cnet.Net.Inspect.ProcessInspector

/-!
# Words and numbers of a request

A request is cut at blanks. `strtoull` is called on the characters of a word and reads on
into what follows it in the input buffer; the number counts only if it ends where the word
does, and then what follows makes no difference. So of the tokens only the words and their
numbers count.
-/

namespace Cnet.Examples.Memcached

open Cnet.Base
open Cnet.Net (Bytes)
open Cnet.Net.ProcessInspector (isSpace isSpace_of_isDigit)

def blank : UInt8 := charByte ' '

/-- `SpaceSeparator`: the token, and where `next` is left. -/
def spaceSeparator (next : Bytes) : Option (Bytes × Bytes) :=
  let start := next.dropWhile fun b => b = blank
  if start = [] then none
  else some (start.takeWhile fun b => b ≠ blank, start.dropWhile fun b => b ≠ blank)

/-- A token, and what follows it in the input buffer. -/
structure Token where
  text : Bytes
  after : Bytes
deriving DecidableEq, Repr

def tokensFrom (beyond : Bytes) : Nat → Bytes → List Token
  | 0, _ => []
  | n + 1, next =>
    match spaceSeparator next with
    | none => []
    | some (tok, next) => ⟨tok, next ++ beyond⟩ :: tokensFrom beyond n next

/-- The tokens of a request; `beyond` is what follows it in the input buffer. A list of them
is an iterator, and the empty one is `end()`. -/
def tokens (request beyond : Bytes) : List Token := tokensFrom beyond request.length request

/-- Whether a number has a minus sign. -/
def negative (text : Bytes) : Bool := text.head? = some (charByte '-')

def signLength (text : Bytes) : Nat :=
  if negative text || text.head? = some (charByte '+') then 1 else 0

/-- The value of a number, negated in the type of the result. -/
def magnitude (negative : Bool) (digits : Bytes) : UInt64 :=
  let value := digitsValue digits
  if 18446744073709551616 ≤ value then 18446744073709551615
  else if negative then -UInt64.ofNat value
  else UInt64.ofNat value

/-- `strtoull(text, &end, 10)`: the number, and how far `end` is. -/
def strtoull (text : Bytes) : UInt64 × Nat :=
  let rest := text.dropWhile isSpace
  let digits := (rest.drop (signLength rest)).takeWhile fun b => IsDigit b
  if digits = [] then (0, 0)
  else (magnitude (negative rest) digits,
    (text.takeWhile isSpace).length + signLength rest + digits.length)

/-- `Reader::read`, before the number is cast. -/
def read : List Token → Option (UInt64 × List Token)
  | [] => none
  | tok :: rest =>
    let (x, stop) := strtoull (tok.text ++ tok.after)
    if stop = tok.text.length then some (x, rest) else none

/-! ## What follows a word -/

/-- A word ends where no digit follows. -/
def Ends (after : Bytes) : Prop := ∀ b, after.head? = some b → ¬ IsDigit b

/-- Behind a word of which a part is no blank, only digits make a difference. -/
theorem strtoull_congr {word after after' : Bytes} (hword : ¬ ∀ b ∈ word, isSpace b = true)
    (h : ∀ l : Bytes, (l ++ after).takeWhile (fun b => IsDigit b) =
      (l ++ after').takeWhile fun b => IsDigit b) :
    strtoull (word ++ after) = strtoull (word ++ after') := by
  have hrest : word.dropWhile isSpace ≠ [] := fun hnil => hword (List.dropWhile_eq_nil_iff.mp hnil)
  have htake (after : Bytes) : (word ++ after).takeWhile isSpace = word.takeWhile isSpace := by
    rw [List.takeWhile_append, if_neg]
    intro hall
    have hsplit := congrArg List.length (List.takeWhile_append_dropWhile (p := isSpace) (l := word))
    rw [List.length_append, hall] at hsplit
    exact hrest (List.eq_nil_of_length_eq_zero (by omega))
  have hdrop (after : Bytes) :
      (word ++ after).dropWhile isSpace = word.dropWhile isSpace ++ after := by
    rw [List.dropWhile_append, if_neg]
    rwa [List.isEmpty_iff]
  have hhead (after : Bytes) :
      (word.dropWhile isSpace ++ after).head? = (word.dropWhile isSpace).head? := by
    rw [List.head?_append_of_ne_nil _ hrest]
  have hnegative (after : Bytes) :
      negative (word.dropWhile isSpace ++ after) = negative (word.dropWhile isSpace) := by
    rw [negative, negative, hhead]
  have hlength (after : Bytes) :
      signLength (word.dropWhile isSpace ++ after) = signLength (word.dropWhile isSpace) := by
    rw [signLength, signLength, hnegative, hhead]
  have hle : signLength (word.dropWhile isSpace) ≤ (word.dropWhile isSpace).length := by
    have := List.length_pos_of_ne_nil hrest
    rw [signLength]
    split <;> omega
  rw [strtoull, strtoull, htake, htake, hdrop, hdrop, hnegative, hnegative, hlength, hlength,
    List.drop_append_of_le_length hle, List.drop_append_of_le_length hle, h]

/-- On blanks alone, `strtoull` stops too early or too late. -/
theorem stop_ne_of_blanks {word after : Bytes} (hword : ∀ b ∈ word, isSpace b = true)
    (hne : word ≠ []) : (strtoull (word ++ after)).2 ≠ word.length := by
  have hpos := List.length_pos_of_ne_nil hne
  rw [strtoull, List.takeWhile_append_of_pos hword, List.length_append]
  split
  · exact fun hzero => absurd hzero (Nat.ne_of_lt hpos)
  · next hdigits =>
    have := List.length_pos_of_ne_nil hdigits
    dsimp only
    omega

/-- The number of a token, if there is one. -/
def Token.number (tok : Token) : Option UInt64 :=
  if (strtoull (tok.text ++ tok.after)).2 = tok.text.length
    then some (strtoull (tok.text ++ tok.after)).1 else none

theorem read_cons (tok : Token) (rest : List Token) :
    read (tok :: rest) = tok.number.map fun x => (x, rest) := by
  have hread : read (tok :: rest) =
      if (strtoull (tok.text ++ tok.after)).2 = tok.text.length
        then some ((strtoull (tok.text ++ tok.after)).1, rest) else none := rfl
  rw [hread, Token.number]
  split <;> rfl

theorem number_congr {word after after' : Bytes} (hne : word ≠ [])
    (h : ∀ l : Bytes, (l ++ after).takeWhile (fun b => IsDigit b) =
      (l ++ after').takeWhile fun b => IsDigit b) :
    Token.number ⟨word, after⟩ = Token.number ⟨word, after'⟩ := by
  rw [Token.number, Token.number]
  by_cases hword : ∀ b ∈ word, isSpace b = true
  · rw [if_neg (stop_ne_of_blanks hword hne), if_neg (stop_ne_of_blanks hword hne)]
  · rw [strtoull_congr hword h]

/-- Digits cannot run through it. -/
def Stops (beyond : Bytes) : Prop := ∃ b ∈ beyond, ¬ IsDigit b

theorem Stops.append_left {beyond : Bytes} (h : Stops beyond) (l : Bytes) :
    Stops (l ++ beyond) := by
  obtain ⟨b, hb, hdigit⟩ := h
  exact ⟨b, List.mem_append_right l hb, hdigit⟩

theorem Stops.takeWhile {l : Bytes} (h : Stops l) (more : Bytes) :
    (l ++ more).takeWhile (fun b => IsDigit b) = l.takeWhile fun b => IsDigit b := by
  obtain ⟨b, hb, hdigit⟩ := h
  rw [List.takeWhile_append, if_neg]
  intro hall
  have hself : l.takeWhile (fun b => IsDigit b) = l :=
    (List.takeWhile_prefix _).eq_of_length hall
  exact hdigit (of_decide_eq_true (List.takeWhile_eq_self_iff.mp hself b hb))

theorem number_append {word after : Bytes} (hne : word ≠ []) (h : Stops after) (more : Bytes) :
    Token.number ⟨word, after ++ more⟩ = Token.number ⟨word, after⟩ :=
  number_congr hne fun l => by rw [← List.append_assoc, (h.append_left l).takeWhile]

/-- What counts of a token. -/
def Token.view (tok : Token) : Bytes × Option UInt64 := (tok.text, tok.number)

/-! ## The words of a request -/

theorem spaceSeparator_some {next tok next' : Bytes} (h : spaceSeparator next = some (tok, next')) :
    tok ≠ [] ∧ blank ∉ tok ∧ next'.length < next.length ∧
      (∀ b, next'.head? = some b → b = blank) := by
  rw [spaceSeparator] at h
  split at h
  · exact absurd h.symm (Option.some_ne_none _)
  · next hstart =>
    obtain ⟨rfl, rfl⟩ := Prod.mk.inj (Option.some.inj h)
    set start := next.dropWhile fun b => b = blank with hdrop
    obtain ⟨c, cs, hc⟩ := List.exists_cons_of_ne_nil hstart
    have hhead : c ≠ blank := by
      have := List.head?_dropWhile_not (fun b => decide (b = blank)) next
      rw [← hdrop, hc, List.head?_cons] at this
      exact of_decide_eq_false this
    have hlen : start.length ≤ next.length := List.length_dropWhile_le _ _
    have htok : start.takeWhile (fun b => b ≠ blank) = c :: cs.takeWhile fun b => b ≠ blank := by
      rw [hc]
      exact List.takeWhile_cons_of_pos (decide_eq_true hhead)
    have hsplit := congrArg List.length
      (List.takeWhile_append_dropWhile (p := fun b => decide (b ≠ blank)) (l := start))
    rw [List.length_append, htok, List.length_cons] at hsplit
    refine ⟨by rw [htok]; exact List.cons_ne_nil _ _, fun hmem => ?_, by omega, fun b hb => ?_⟩
    · have himp := List.mem_takeWhile_imp hmem
      exact absurd rfl (of_decide_eq_true himp)
    · have := List.head?_dropWhile_not (fun b => decide (b ≠ blank)) start
      rw [hb] at this
      exact not_not.mp (of_decide_eq_false this)

theorem tokensFrom_eq {beyond next : Bytes} {n : Nat} (hn : next.length ≤ n) :
    tokensFrom beyond n next = tokens next beyond := by
  suffices h : ∀ m n, next.length ≤ m → next.length ≤ n →
      tokensFrom beyond n next = tokensFrom beyond m next by
    exact h _ _ (Nat.le_refl _) hn
  clear hn n
  intro m
  induction m generalizing next with
  | zero =>
    intro n hm _
    obtain rfl := List.eq_nil_of_length_eq_zero (Nat.le_zero.mp hm)
    cases n <;> rfl
  | succ m ih =>
    intro n hm hn
    cases n with
    | zero =>
      obtain rfl := List.eq_nil_of_length_eq_zero (Nat.le_zero.mp hn)
      rfl
    | succ n =>
      rw [tokensFrom, tokensFrom]
      cases hsep : spaceSeparator next with
      | none => rfl
      | some p =>
        obtain ⟨tok, next'⟩ := p
        obtain ⟨-, -, hlt, -⟩ := spaceSeparator_some hsep
        dsimp only
        rw [ih n (by omega) (by omega)]

theorem tokens_of_none {request : Bytes} (h : spaceSeparator request = none) (beyond : Bytes) :
    tokens request beyond = [] := by
  rw [tokens]
  cases request.length with
  | zero => rfl
  | succ n => rw [tokensFrom, h]

theorem tokens_of_some {request tok next : Bytes} (h : spaceSeparator request = some (tok, next))
    (beyond : Bytes) :
    tokens request beyond = ⟨tok, next ++ beyond⟩ :: tokens next beyond := by
  obtain ⟨-, -, hlt, -⟩ := spaceSeparator_some h
  obtain ⟨n, hn⟩ := Nat.exists_eq_succ_of_ne_zero (by omega : request.length ≠ 0)
  rw [tokens, hn, tokensFrom, h]
  dsimp only
  rw [tokensFrom_eq (by omega)]

/-- Induction over the words of a request. -/
theorem tokens_induction {P : Bytes → Prop}
    (none : ∀ request, spaceSeparator request = none → P request)
    (some : ∀ request tok next, spaceSeparator request = some (tok, next) → P next → P request)
    (request : Bytes) : P request := by
  induction hn : request.length using Nat.strongRecOn generalizing request with
  | ind n ih =>
    cases hsep : spaceSeparator request with
    | none => exact none request hsep
    | some p =>
      obtain ⟨tok, next⟩ := p
      obtain ⟨-, -, hlt, -⟩ := spaceSeparator_some hsep
      exact some request tok next hsep (ih _ (hn ▸ hlt) next rfl)

/-- What is behind a request makes no difference, as far as digits cannot run through to it. -/
theorem tokens_append (request : Bytes) {beyond : Bytes} (h : Stops beyond) (more : Bytes) :
    (tokens request (beyond ++ more)).map Token.view = (tokens request beyond).map Token.view := by
  induction request using tokens_induction with
  | none request hsep => rw [tokens_of_none hsep, tokens_of_none hsep]
  | some request tok next hsep ih =>
    obtain ⟨hne, -⟩ := spaceSeparator_some hsep
    have hnumber := number_append hne (h.append_left next) more
    rw [tokens_of_some hsep, tokens_of_some hsep, List.map_cons, List.map_cons, ih, Token.view,
      Token.view, ← List.append_assoc, hnumber]

/-! ## Requests made of words -/

def words (request : Bytes) : List Bytes := (tokens request []).map Token.text

/-- Words with blanks in between. -/
def unwords : List Bytes → Bytes
  | [] => []
  | [word] => word
  | word :: rest => word ++ blank :: unwords rest

/-- What can be a word. -/
def IsWord (word : Bytes) : Prop := word ≠ [] ∧ blank ∉ word

instance : DecidablePred IsWord := fun _ => inferInstanceAs (Decidable (_ ∧ _))

end Cnet.Examples.Memcached
