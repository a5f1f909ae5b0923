import Mathlib.Tactic.IntervalCases
import Cnet.Base.LogStream

/-!
# What a log stream holds

A piece goes into the stream whole or not at all, and no write leaves the array. The texts
of numbers are those of the library; `accept` says which pieces find room.
-/

namespace Cnet.Base

open Cnet.Support

/-! ## Numbers -/

theorem zero_eq {r : Int} (h : r.natAbs < 10) : zero r = some (charByte r.natAbs.digitChar) := by
  have hlo : -10 < r := by omega
  have hhi : r < 10 := by omega
  interval_cases r <;> rfl

theorem hex_eq {r : Int} (h : r.natAbs < 16) (h0 : 0 ≤ r) :
    hex r = some (charByte r.natAbs.digitChar.toUpper) := by
  have hhi : r < 16 := by omega
  interval_cases r <;> rfl

/-! The remainders of a negative value are negative, and no others. -/

theorem neg_of_tmod_neg {i : Int} {base : Nat} (h : i.tmod base < 0) : i < 0 := by
  by_contra hnonneg
  exact absurd (Int.tmod_nonneg base (not_lt.mp hnonneg)) (not_le.mpr h)

theorem neg_of_tdiv_neg {i : Int} {base : Nat} (h : i.tdiv base < 0) : i < 0 := by
  by_contra hnonneg
  exact absurd (Int.tdiv_nonneg (not_lt.mp hnonneg) (Int.natCast_nonneg base)) (not_le.mpr h)

variable {a : SmallArray} {p : Nat}

/-- The loop puts the digits of `i` in the wrong order. `signed` is whether `i` may be
negative. -/
theorem putDigits_spec (byte : Char → UInt8) (signed : Prop) {base : Nat} (hbase : 1 < base)
    {digit : Int → Option UInt8}
    (hdigit : ∀ r : Int, r.natAbs < base → (r < 0 → signed) →
      digit r = some (byte r.natAbs.digitChar))
    {fuel : Nat} {i : Int} (hfuel : i.natAbs < fuel) (hsign : i < 0 → signed)
    (hroom : p + (digitBytes byte base i.natAbs).length ≤ kSmallBuffer) :
    ∃ a', putDigits base digit fuel a p i =
        some (a', p + (digitBytes byte base i.natAbs).length) ∧
      a.Overwrites p a' (digitBytes byte base i.natAbs).reverse := by
  induction fuel generalizing a p i with
  | zero => exact absurd hfuel (Nat.not_lt_zero _)
  | succ fuel ih =>
    have hmodAbs : (i.tmod base).natAbs = i.natAbs % base := Int.natAbs_tmod i base
    have hdivAbs : (i.tdiv base).natAbs = i.natAbs / base := Int.natAbs_tdiv i base
    have hget := hdigit (i.tmod base) (by rw [hmodAbs]; exact Nat.mod_lt _ (by omega))
      (fun hneg => hsign (neg_of_tmod_neg hneg))
    rw [hmodAbs] at hget
    have hdigits := digitBytes_eq hbase byte i.natAbs
    rw [putDigits, hget, Option.bind_eq_bind, Option.bind_some]
    by_cases hlast : i.natAbs < base
    · rw [if_pos hlast] at hdigits
      rw [hdigits] at hroom ⊢
      obtain ⟨a', hwrite, hext⟩ := a.write_overwrites hroom
      have hstop : i.tdiv base = 0 :=
        Int.natAbs_eq_zero.mp (by rw [hdivAbs, Nat.div_eq_of_lt hlast])
      refine ⟨a', ?_, hext⟩
      rw [Nat.mod_eq_of_lt hlast, hwrite, Option.bind_eq_bind, Option.bind_some,
        if_neg (not_not.mpr hstop)]
      rfl
    · rw [if_neg hlast] at hdigits
      have hmore : i.tdiv base ≠ 0 := fun hzero => by
        rw [hzero, Int.natAbs_zero, eq_comm, Nat.div_eq_zero_iff] at hdivAbs
        omega
      have hsmaller : (i.tdiv base).natAbs < fuel := by
        have := Nat.div_lt_self (by omega : 0 < i.natAbs) hbase
        omega
      have hdivSign : i.tdiv base < 0 → signed := fun hneg => hsign (neg_of_tdiv_neg hneg)
      rw [hdigits, List.length_append, List.length_singleton] at hroom ⊢
      obtain ⟨b, hwrite, hext⟩ := a.write_overwrites (i := p)
        (d := [byte (i.natAbs % base).digitChar]) (by rw [List.length_singleton]; omega)
      obtain ⟨a', hput, hext'⟩ := ih (a := b) (p := p + 1) hsmaller hdivSign
        (by rw [hdivAbs]; omega)
      rw [hdivAbs] at hput hext'
      refine ⟨a', ?_, ?_⟩
      · rw [hwrite, Option.bind_eq_bind, Option.bind_some, if_pos hmore, hput]
        congr 2
        omega
      · rw [List.reverse_append]
        exact hext.trans hext' (by omega)

/-- An address: its digits in upper case after `0x`. -/
def pointerText (v : UInt64) : List UInt8 :=
  chars "0x" ++ digitBytes (fun c => charByte c.toUpper) 16 v.toNat

theorem putSign_spec {v : Int} {sign : List UInt8} (hsign : sign = if v < 0 then chars "-" else [])
    (hroom : p + sign.length ≤ kSmallBuffer) :
    ∃ a', putSign v a p = some (a', p + sign.length) ∧ a.Overwrites p a' sign := by
  rw [putSign]
  by_cases hneg : v < 0
  · rw [if_pos hneg] at hsign ⊢
    obtain ⟨a', hwrite, hext⟩ := a.write_overwrites hroom
    refine ⟨a', ?_, hext⟩
    rw [← hsign, hwrite, hsign]
    rfl
  · rw [if_neg hneg] at hsign ⊢
    rw [hsign]
    exact ⟨a, rfl, overwrite_nil.symm⟩

theorem reverseDigits_spec {a' : SmallArray} {d : List UInt8} (h : a.Overwrites p a' d)
    (hroom : p + d.length < kSmallBuffer) :
    ∃ a'', reverseDigits a' p (p + d.length) = some (a'', d.length) ∧
      a.Overwrites p a'' (d.reverse ++ [0]) := by
  obtain ⟨b, hzero, hext⟩ := a'.write_overwrites (i := p + d.length) (d := [0]) hroom
  obtain ⟨a'', hreverse, hext'⟩ := (h.trans hext (by omega)).reverse hroom
  refine ⟨a'', ?_, hext'⟩
  rw [reverseDigits, hzero, Option.bind_eq_bind, Option.bind_some, hreverse, Option.bind_some,
    Nat.add_sub_cancel_left]

/-- With room for the text and the terminator, `convert` writes them, and no more. -/
theorem convert_overwrites (v : Int) (hroom : p + (decimalText v).length < kSmallBuffer) :
    ∃ a', convert a p v = some (a', (decimalText v).length) ∧
      a.Overwrites p a' (decimalText v ++ [0]) := by
  set ds := digitBytes charByte 10 v.natAbs with hds
  set sign : List UInt8 := if v < 0 then chars "-" else [] with hsign
  have htext : decimalText v = sign ++ ds := decimalText_eq v
  rw [htext, List.length_append] at hroom
  obtain ⟨a₁, hput, hext⟩ := putDigits_spec (a := a) (p := p) (i := v) charByte True
    (by decide) (fun r h _ => zero_eq h) (Nat.lt_succ_self _) (fun _ => trivial)
    (by rw [← hds]; omega)
  rw [← hds, ← List.length_reverse] at hput
  obtain ⟨a₂, hminus, hext₂⟩ := putSign_spec (a := a₁) (p := p + ds.reverse.length) hsign
    (by rw [List.length_reverse]; omega)
  have hlen : (ds.reverse ++ sign).length = (decimalText v).length := by
    rw [htext, List.length_append, List.length_append, List.length_reverse, Nat.add_comm]
  have hreversed : (ds.reverse ++ sign).reverse = decimalText v := by
    have hsignRev : sign.reverse = sign := by
      rw [hsign]
      split <;> rfl
    rw [List.reverse_append, List.reverse_reverse, hsignRev, htext]
  obtain ⟨a₃, hend, hext₃⟩ := reverseDigits_spec (hext.trans hext₂ (by omega))
    (by rw [hlen, htext, List.length_append]; exact hroom)
  rw [hreversed] at hext₃
  refine ⟨a₃, ?_, hext₃⟩
  rw [hlen] at hend
  rw [convert]
  refine Option.bind_eq_some_iff.mpr ⟨_, hput, Option.bind_eq_some_iff.mpr ⟨_, hminus, ?_⟩⟩
  rw [Nat.add_assoc, ← List.length_append, hlen]
  exact hend

theorem convert_spec (v : Int) (hroom : p + (decimalText v).length < kSmallBuffer) :
    ∃ a', convert a p v = some (a', (decimalText v).length) ∧ a.Extends p a' (decimalText v) := by
  obtain ⟨a', hconvert, hcells⟩ := convert_overwrites (a := a) v hroom
  have hp : p ≤ kSmallBuffer := by omega
  exact ⟨a', hconvert, (hcells.toExtends hp).of_append hp⟩

/-- With room for the digits and the terminator, `converHex` writes them, and no more. -/
theorem converHex_overwrites (v : UInt64) {ds : List UInt8}
    (hds : ds = digitBytes (fun c => charByte c.toUpper) 16 v.toNat)
    (hroom : p + ds.length < kSmallBuffer) :
    ∃ a', converHex a p v = some (a', ds.length) ∧ a.Overwrites p a' (ds ++ [0]) := by
  obtain ⟨a₁, hput, hext⟩ := putDigits_spec (a := a) (p := p) (i := v.toNat)
    (fun c => charByte c.toUpper) False (by decide)
    (fun r h hr => hex_eq h (not_lt.mp hr)) (Nat.lt_succ_self _) (by omega)
    (by rw [Int.natAbs_natCast, ← hds]; omega)
  rw [Int.natAbs_natCast, ← hds] at hput hext
  rw [← List.length_reverse] at hput
  obtain ⟨a₂, hend, hext₂⟩ := reverseDigits_spec hext (by rw [List.length_reverse]; exact hroom)
  rw [List.reverse_reverse] at hext₂
  rw [List.length_reverse] at hend hput
  refine ⟨a₂, ?_, hext₂⟩
  rw [converHex]
  exact Option.bind_eq_some_iff.mpr ⟨_, hput, hend⟩

theorem converHex_spec (v : UInt64) {ds : List UInt8}
    (hds : ds = digitBytes (fun c => charByte c.toUpper) 16 v.toNat)
    (hroom : p + ds.length < kSmallBuffer) :
    ∃ a', converHex a p v = some (a', ds.length) ∧ a.Extends p a' ds := by
  obtain ⟨a', hhex, hcells⟩ := converHex_overwrites (a := a) v hds hroom
  have hp : p ≤ kSmallBuffer := by omega
  exact ⟨a', hhex, (hcells.toExtends hp).of_append hp⟩

/-! ## Insertions -/

/-- The characters of a 64-bit number, its sign included. -/
theorem length_decimalText_le {v : Int} (hlo : -9223372036854775808 ≤ v)
    (hhi : v < 18446744073709551616) : (decimalText v).length ≤ 20 := by
  rw [decimalText_eq, List.length_append, digitBytes, List.length_map]
  by_cases hneg : v < 0
  · rw [if_pos hneg]
    have := (Nat.length_toDigits_le_iff (b := 10) (n := v.natAbs) (k := 19) (by decide)
      (by decide)).mpr (by omega)
    show 1 + _ ≤ 20
    omega
  · rw [if_neg hneg]
    have := (Nat.length_toDigits_le_iff (b := 10) (n := v.natAbs) (k := 20) (by decide)
      (by decide)).mpr (by omega)
    show 0 + _ ≤ 20
    omega

namespace Piece

/-- The whole text of a piece. -/
def text (format : Float → List UInt8) : Piece → List UInt8
  | .bool v => if v then chars "1" else chars "0"
  | .short v => decimalText v.toInt
  | .unsignedShort v => decimalText v.toNat
  | .int v => decimalText v.toInt
  | .unsignedInt v => decimalText v.toNat
  | .long v => decimalText v.toInt
  | .unsignedLong v => decimalText v.toNat
  | .longLong v => decimalText v.toInt
  | .unsignedLongLong v => decimalText v.toNat
  | .pointer p => pointerText p
  | .float v => format v.toFloat
  | .double v => format v
  | .char v => [v]
  | .cString (some str) => str
  | .cString none => chars "(null)"
  | .string v => v
  | .stringPiece v => v
  | .fmt v => v.text

/-- With `avail` bytes available, the piece finds room. -/
def HasRoom (format : Float → List UInt8) (avail : Nat) : Piece → Prop
  | .short _ | .unsignedShort _ | .int _ | .unsignedInt _ | .long _ | .unsignedLong _
  | .longLong _ | .unsignedLongLong _ | .pointer _ => 32 ≤ avail
  | .float _ | .double _ => 32 < avail
  | p => (p.text format).length < avail

instance (format : Float → List UInt8) (avail : Nat) (p : Piece) :
    Decidable (p.HasRoom format avail) := by
  cases p <;> exact Nat.decLe _ _

/-- The content of the stream after a piece. -/
def accept (format : Float → List UInt8) (content : List UInt8) (p : Piece) : List UInt8 :=
  if p.HasRoom format (kSmallBuffer - content.length) then content ++ p.text format else content

end Piece

namespace LogStream

/-- The last byte of the array is never used. -/
def Inside (s : LogStream) : Prop := s.buffer_.cur_ < kSmallBuffer

variable {s : LogStream} {format : Float → List UInt8}

theorem length_content (h : s.Inside) : s.content.length = s.buffer_.cur_ :=
  s.buffer_.data_.length_take_cells (Nat.le_of_lt h)

/-- What an insertion comes to where the text is `d`, and room is found if `room`. -/
def Puts (s : LogStream) (r : Option LogStream) (room : Prop) (d : List UInt8) : Prop :=
  ∃ s', r = some s' ∧ s'.Inside ∧ (room → s'.content = s.content ++ d) ∧ (¬ room → s' = s)

theorem puts_of_not {room : Prop} {d : List UInt8} (h : s.Inside) (hroom : ¬ room) :
    s.Puts (some s) room d :=
  ⟨s, rfl, h, fun hr => absurd hr hroom, fun _ => rfl⟩

theorem puts_of_extends {room : Prop} {d : List UInt8} {a : SmallArray} (hroom : room)
    (hext : s.buffer_.data_.Extends s.buffer_.cur_ a d)
    (hlen : s.buffer_.cur_ + d.length < kSmallBuffer) :
    s.Puts (some ⟨⟨a, s.buffer_.cur_ + d.length⟩⟩) room d :=
  ⟨_, rfl, hlen, fun _ => hext, fun hno => absurd hroom hno⟩

theorem append_puts (h : s.Inside) (d : List UInt8) :
    s.Puts (s.append d) (d.length < kSmallBuffer - s.buffer_.cur_) d := by
  have hcur : s.buffer_.cur_ < 4000 := h
  have havail : s.buffer_.availSize = kSmallBuffer - s.buffer_.cur_ := by
    rw [Buffer.availSize, Buffer.avail, kSmallBuffer, wordSize]
    omega
  rw [append, Buffer.append, havail]
  by_cases hroom : d.length < kSmallBuffer - s.buffer_.cur_
  · rw [if_pos hroom]
    obtain ⟨a, hwrite, hext⟩ :=
      s.buffer_.data_.write_extends (i := s.buffer_.cur_) (d := d) (by omega)
    rw [hwrite]
    exact puts_of_extends hroom hext (by omega)
  · rw [if_neg hroom]
    exact puts_of_not h hroom

theorem formatInteger_puts (h : s.Inside) {v : Int}
    (hv : -9223372036854775808 ≤ v ∧ v < 18446744073709551616) :
    s.Puts (s.formatInteger v) (32 ≤ kSmallBuffer - s.buffer_.cur_) (decimalText v) := by
  have hcur : s.buffer_.cur_ < 4000 := h
  have htext := length_decimalText_le hv.1 hv.2
  have htest : s.buffer_.avail ≥ kMaxNumericSize ↔ 32 ≤ kSmallBuffer - s.buffer_.cur_ := by
    rw [Buffer.avail, kSmallBuffer, kMaxNumericSize]
    omega
  rw [formatInteger]
  by_cases hroom : 32 ≤ kSmallBuffer - s.buffer_.cur_
  · rw [if_pos (htest.mpr hroom)]
    obtain ⟨a, hconvert, hext⟩ := convert_spec (a := s.buffer_.data_) (p := s.buffer_.cur_) v
      (by omega)
    rw [hconvert]
    exact puts_of_extends hroom hext (by omega)
  · rw [if_neg (htest.not.mpr hroom)]
    exact puts_of_not h hroom

theorem insertPointer_puts (h : s.Inside) (v : UInt64) :
    s.Puts (s.insertPointer v) (32 ≤ kSmallBuffer - s.buffer_.cur_) (pointerText v) := by
  have hcur : s.buffer_.cur_ < 4000 := h
  set ds := digitBytes (fun c => charByte c.toUpper) 16 v.toNat with hds
  have hlen : ds.length ≤ 16 := by
    rw [hds, digitBytes, List.length_map]
    exact (Nat.length_toDigits_le_iff (by decide) (by decide)).mpr v.toNat_lt
  have htext : pointerText v = chars "0x" ++ ds := rfl
  have hprefix : (chars "0x").length = 2 := rfl
  have htest : s.buffer_.avail ≥ kMaxNumericSize ↔ 32 ≤ kSmallBuffer - s.buffer_.cur_ := by
    rw [Buffer.avail, kSmallBuffer, kMaxNumericSize]
    omega
  rw [insertPointer]
  by_cases hroom : 32 ≤ kSmallBuffer - s.buffer_.cur_
  · rw [if_pos (htest.mpr hroom)]
    obtain ⟨a₁, hwrite, hext₁⟩ := s.buffer_.data_.write_extends (i := s.buffer_.cur_)
      (d := chars "0x") (by omega)
    obtain ⟨a₂, hhex, hext₂⟩ := converHex_spec (a := a₁) (p := s.buffer_.cur_ + 2) v hds (by omega)
    have hputs := puts_of_extends hroom (hext₁.trans hext₂)
      (by rw [List.length_append]; omega)
    rw [List.length_append, hprefix, Nat.add_comm 2] at hputs
    dsimp only
    rw [hwrite, Option.bind_eq_bind, Option.bind_some, hhex]
    exact hputs
  · rw [if_neg (htest.not.mpr hroom)]
    exact puts_of_not h hroom

theorem insertDouble_puts (h : s.Inside) (hformat : ∀ v, (format v).length < 32) (v : Float) :
    s.Puts (s.insertDouble format v) (32 < kSmallBuffer - s.buffer_.cur_) (format v) := by
  have hcur : s.buffer_.cur_ < 4000 := h
  have hlen := hformat v
  have htest : s.buffer_.avail > kMaxNumericSize ↔ 32 < kSmallBuffer - s.buffer_.cur_ := by
    rw [Buffer.avail, kSmallBuffer, kMaxNumericSize]
    omega
  rw [insertDouble]
  by_cases hroom : 32 < kSmallBuffer - s.buffer_.cur_
  · rw [if_pos (htest.mpr hroom), List.take_of_length_le (by rw [kMaxNumericSize]; omega)]
    obtain ⟨a, hwrite, hext⟩ := s.buffer_.data_.write_extends (i := s.buffer_.cur_)
      (d := format v ++ [0]) (by rw [List.length_append, List.length_singleton]; omega)
    rw [hwrite]
    exact puts_of_extends hroom (hext.of_append (by omega)) (by omega)
  · rw [if_neg (htest.not.mpr hroom)]
    exact puts_of_not h hroom

/-- An insertion stays inside the array, and puts in the whole piece or nothing. -/
theorem insert_spec (h : s.Inside) (hformat : ∀ v, (format v).length < 32) (p : Piece) :
    ∃ s', s.insert format p = some s' ∧ s'.Inside ∧ s'.content = p.accept format s.content := by
  have hputs : s.Puts (s.insert format p) (p.HasRoom format (kSmallBuffer - s.content.length))
      (p.text format) := by
    rw [length_content h]
    cases p with
    | bool v => cases v <;> exact append_puts h _
    | short v => exact formatInteger_puts h (by have := v.le_toInt; have := v.toInt_lt; omega)
    | unsignedShort v => exact formatInteger_puts h (by have := v.toNat_lt; omega)
    | int v => exact formatInteger_puts h (by have := v.le_toInt; have := v.toInt_lt; omega)
    | unsignedInt v => exact formatInteger_puts h (by have := v.toNat_lt; omega)
    | long v => exact formatInteger_puts h (by have := v.le_toInt; have := v.toInt_lt; omega)
    | unsignedLong v => exact formatInteger_puts h (by have := v.toNat_lt; omega)
    | longLong v => exact formatInteger_puts h (by have := v.le_toInt; have := v.toInt_lt; omega)
    | unsignedLongLong v => exact formatInteger_puts h (by have := v.toNat_lt; omega)
    | pointer p => exact insertPointer_puts h p
    | float v => exact insertDouble_puts h hformat _
    | double v => exact insertDouble_puts h hformat v
    | char v => exact append_puts h _
    | cString str => cases str <;> exact append_puts h _
    | string v => exact append_puts h v
    | stringPiece v => exact append_puts h v
    | fmt v => exact append_puts h v.text
  obtain ⟨s', hs', hinside, hroom, hnone⟩ := hputs
  refine ⟨s', hs', hinside, ?_⟩
  rw [Piece.accept]
  split
  · rename_i hfits
    exact hroom hfits
  · rename_i hfits
    rw [hnone hfits]

theorem insertAll_inside (h : s.Inside) (hformat : ∀ v, (format v).length < 32)
    (pieces : List Piece) :
    ∃ s', s.insertAll format pieces = some s' ∧ s'.Inside ∧
      s'.content = pieces.foldl (Piece.accept format) s.content := by
  induction pieces generalizing s with
  | nil => exact ⟨s, rfl, h, rfl⟩
  | cons p pieces ih =>
    obtain ⟨s₁, hs₁, hinside₁, hcontent₁⟩ := insert_spec h hformat p
    obtain ⟨s', hs', hinside', hcontent'⟩ := ih hinside₁
    refine ⟨s', ?_, hinside', ?_⟩
    · rw [insertAll, hs₁]
      exact hs'
    · rw [hcontent', hcontent₁, List.foldl_cons]

/-- A piece is accepted where there is room for it and a number. -/
theorem accept_of_room {content : List UInt8} {p : Piece}
    (h : content.length + (p.text format).length + kMaxNumericSize < kSmallBuffer) :
    p.accept format content = content ++ p.text format := by
  rw [kMaxNumericSize] at h
  refine if_pos ?_
  cases p <;> simp only [Piece.HasRoom] <;> omega

theorem foldl_accept {pieces : List Piece} {content : List UInt8}
    (h : content.length + (pieces.flatMap (Piece.text format)).length + kMaxNumericSize <
      kSmallBuffer) :
    pieces.foldl (Piece.accept format) content = content ++ pieces.flatMap (Piece.text format) := by
  induction pieces generalizing content with
  | nil => exact (List.append_nil content).symm
  | cons p pieces ih =>
    rw [List.flatMap_cons, List.length_append] at h
    rw [List.foldl_cons, accept_of_room (by omega), ih (by rw [List.length_append]; omega),
      List.flatMap_cons, List.append_assoc]

/-- From a new stream on: every write is inside the array, the last byte is never part of
the content, and the content is made of the whole texts of the pieces that found room. -/
theorem insertAll_spec (format : Float → List UInt8)
    (hformat : ∀ v, (format v).length < kMaxNumericSize) (data_ : SmallArray)
    (pieces : List Piece) :
    ∃ s, (new data_).insertAll format pieces = some s ∧ s.buffer_.length ≤ 3999 ∧
      s.content.length = s.buffer_.length ∧ s.content = pieces.foldl (Piece.accept format) [] := by
  obtain ⟨s, hs, hinside, hcontent⟩ :=
    insertAll_inside (s := new data_) (by decide : 0 < kSmallBuffer) hformat pieces
  exact ⟨s, hs, Nat.le_of_lt_succ hinside, length_content hinside, hcontent⟩

def zeros : SmallArray := ⟨List.replicate kSmallBuffer 0, List.length_replicate⟩

theorem insertAll_spec_numbers :
    ∃ s, (new zeros).insertAll (fun _ => chars "0") [.long (-7), .double 0, .pointer 255] = some s ∧
      s.buffer_.length ≤ 3999 ∧ s.content.length = s.buffer_.length ∧
        s.content = [Piece.long (-7), .double 0, .pointer 255].foldl
          (Piece.accept fun _ => chars "0") [] :=
  insertAll_spec (fun _ => chars "0") (fun _ => by decide) zeros _

end LogStream

end Cnet.Base
