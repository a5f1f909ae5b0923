import Cnet.Base.StringPiece
import Cnet.Net.BufferRefinement

/-!
# Shrinking a buffer

`shrink` copies the readable bytes to a new buffer through a `StringPiece`, whose length is
an `int`. Growing a vector succeeds as long as its size is a `size_t`.
-/

namespace Cnet.Net

open Cnet.Support
open Cnet.Base

namespace Buffer

/-- The pointer can be read from to the end of `buffer_`. -/
def toStringPiece (b : Buffer) : StringPiece :=
  ⟨b.buffer_.drop b.peek, castInt b.readableBytes⟩

/-- `append(const StringPiece&)`, which is `append(str.data(), str.size())`. -/
def appendPiece (b : Buffer) (str : StringPiece) : Option Buffer := str.bytes.bind b.append

/-- `swap` makes this buffer what `other` is. -/
def shrink (b : Buffer) (reserve : Nat) : Option Buffer := do
  let other ← new kInitialSize
  let other ← other.enuserWritableBytes (addWord b.readableBytes reserve)
  other.appendPiece b.toStringPiece

theorem enuserWritableBytes_of_room {b : Buffer} {len : Nat} (hroom : len ≤ b.writableBytes) :
    b.enuserWritableBytes len = some b := by
  rw [enuserWritableBytes, if_neg (Nat.not_lt.mpr hroom)]
  exact bind_assert.mpr ⟨hroom, rfl⟩

/-- A buffer in which there is nothing, and nothing has been. -/
structure Fresh (b : Buffer) : Prop extends b.Indexed where
  reader : b.readerIndex_ = kCheapPrepend
  writer : b.writerIndex_ = kCheapPrepend

namespace Fresh

variable {b b' : Buffer} (h : b.Fresh) {len : Nat}
include h

theorem readable_eq : b.readable = [] := by
  rw [readable, h.reader, h.writer, slice_self]

theorem fits_of_lt (hlen : len + kCheapPrepend < wordSize) : b.Fits len :=
  fun _ => ⟨hlen, by rw [h.writer, Nat.add_comm]; exact hlen⟩

/-- There is nothing to move, so `makeSpace` has to grow the vector. -/
theorem makeSpace_inv (hm : b.makeSpace len = some b') :
    b'.readerIndex_ = kCheapPrepend ∧ b'.writerIndex_ = kCheapPrepend ∧
      addWord b.writableBytes b.prependableBytes < addWord len kCheapPrepend := by
  rw [makeSpace] at hm
  by_cases hgrow : addWord b.writableBytes b.prependableBytes < addWord len kCheapPrepend
  · rw [if_pos hgrow] at hm
    obtain rfl := Option.some.inj hm
    exact ⟨h.reader, h.writer, hgrow⟩
  · rw [if_neg hgrow] at hm
    have habove := (bind_assert.mp hm).1
    rw [h.reader] at habove
    exact absurd habove (Nat.lt_irrefl _)

theorem enuserWritableBytes_spec (hlen : len + kCheapPrepend < wordSize) :
    ∃ b', b.enuserWritableBytes len = some b' ∧ b'.Fresh ∧ len ≤ b'.writableBytes := by
  by_cases hshort : b.writableBytes < len
  · obtain ⟨b', hm, hi, -, hroom⟩ := makeSpace_spec h.toIndexed hshort (h.fits_of_lt hlen)
    obtain ⟨hreader, hwriter, -⟩ := h.makeSpace_inv hm
    refine ⟨b', ?_, ⟨hi, hreader, hwriter⟩, hroom⟩
    rw [enuserWritableBytes, if_pos hshort, hm]
    exact bind_assert.mpr ⟨hroom, rfl⟩
  · have hroom : len ≤ b.writableBytes := by omega
    exact ⟨b, enuserWritableBytes_of_room hroom, h, hroom⟩

/-- Where the prepended bytes make the size wrap, the assert of `makeSpace` fails. -/
theorem lt_of_enuserWritableBytes (hlen : len < wordSize)
    (he : b.enuserWritableBytes len = some b') : len + kCheapPrepend < wordSize := by
  by_contra hover
  have hk : kCheapPrepend = 8 := rfl
  have hword : wordSize = 18446744073709551616 := rfl
  have hw := h.writableBytes_eq
  have hfits := h.fits
  rw [h.writer] at hw
  have hshort : b.writableBytes < len := by omega
  rw [enuserWritableBytes, if_pos hshort] at he
  cases hm : b.makeSpace len with
  | none => rw [hm] at he; exact absurd he.symm (Option.some_ne_none b')
  | some b₁ =>
    have hgrow := (h.makeSpace_inv hm).2.2
    have hroom : addWord b.writableBytes b.prependableBytes = b.writableBytes + kCheapPrepend := by
      rw [prependableBytes, h.reader, addWord_of_lt (by omega)]
    have hwrap : addWord len kCheapPrepend = len + kCheapPrepend - wordSize :=
      (Nat.mod_eq_sub_mod (by omega)).trans (Nat.mod_eq_of_lt (by omega))
    omega

/-- What is appended first is all there is. -/
theorem readable_of_append {data : Bytes} (hdata : data.length < wordSize)
    (ha : b.append data = some b') : b'.readable = data := by
  have hfit : data.length + kCheapPrepend < wordSize := by
    cases he : b.enuserWritableBytes data.length with
    | none => rw [append, he] at ha; exact absurd ha.symm (Option.some_ne_none b')
    | some b₁ => exact h.lt_of_enuserWritableBytes hdata he
  obtain ⟨b'', he, -, hread⟩ := append_spec h.toIndexed (h.fits_of_lt hfit)
  obtain rfl := Option.some.inj (ha.symm.trans he)
  rw [hread, h.readable_eq, List.nil_append]

/-- With room, appending leaves the rest of it. -/
theorem append_spec {data : Bytes} (hroom : data.length ≤ b.writableBytes) :
    ∃ b', b.append data = some b' ∧ b'.readable = data ∧ b'.prependableBytes = kCheapPrepend ∧
      b'.writableBytes = b.writableBytes - data.length := by
  obtain ⟨hi, hread⟩ := stored_spec h.toIndexed hroom (Nat.le_refl _)
  refine ⟨b.stored data data.length, ?_, ?_, h.reader, ?_⟩
  · simp only [append, enuserWritableBytes_of_room hroom, Option.bind_eq_bind, Option.bind_some]
    exact writeThenHasWritten_eq h.toIndexed hroom (Nat.le_refl _)
  · rw [hread, h.readable_eq, List.take_length, List.nil_append]
  · have hw := h.writableBytes_eq
    have hb := h.bounded
    have hlen : (b.stored data data.length).buffer_.length = b.buffer_.length :=
      length_overwrite (by omega)
    have hwriter : (b.stored data data.length).writerIndex_ = b.writerIndex_ + data.length := rfl
    rw [hi.writableBytes_eq, hlen, hwriter, hw, Nat.sub_add_eq]

end Fresh

/-- The buffer that `shrink` starts with. -/
theorem new_fresh {initialSize : Nat} (h : kCheapPrepend + initialSize < wordSize) :
    ∃ b, new initialSize = some b ∧ b.Fresh := by
  obtain ⟨b, hnew, hi, -⟩ := new_spec h
  refine ⟨b, hnew, hi, ?_, ?_⟩
  all_goals
    rw [new] at hnew
    obtain ⟨-, hrest⟩ := bind_assert.mp hnew
    obtain ⟨-, hrest⟩ := bind_assert.mp hrest
    obtain ⟨-, hrest⟩ := bind_assert.mp hrest
    rw [← Option.some.inj hrest]

theorem initial_fresh : ∃ b, new kInitialSize = some b ∧ b.Fresh :=
  new_fresh (by simp only [kCheapPrepend, kInitialSize, wordSize, Nat.reduceAdd, Nat.reduceLT])

/-- What `shrink` is for. -/
def ShrinkKeeps (b : Buffer) (reserve : Nat) : Prop :=
  ∃ b', b.shrink reserve = some b' ∧ b'.readable = b.readable ∧ reserve ≤ b'.writableBytes ∧
    b'.prependableBytes = kCheapPrepend

section Shrink

variable {b : Buffer} (h : b.Indexed) {reserve : Nat}
include h

omit h in
theorem size_toStringPiece : b.toStringPiece.size = castInt b.readableBytes := by
  rw [StringPiece.size, toStringPiece]

theorem length_data_toStringPiece : b.readableBytes ≤ b.toStringPiece.data.length := by
  have hr := h.readableBytes_eq
  have hb := h.bounded
  show _ ≤ (b.buffer_.drop b.readerIndex_).length
  rw [List.length_drop]
  omega

theorem bytes_toStringPiece (hpass : PassesInt b.readableBytes) :
    b.toStringPiece.bytes = some b.readable := by
  rw [PassesInt] at hpass
  rw [StringPiece.bytes_eq, size_toStringPiece, hpass,
    if_pos (length_data_toStringPiece h), h.readableBytes_eq]
  rfl

omit h in
theorem shrink_of_bytes {content : Bytes} (hbytes : b.toStringPiece.bytes = some content)
    (hle : content.length ≤ b.readableBytes)
    (hsum : b.readableBytes + reserve + kCheapPrepend < wordSize) :
    ∃ b', b.shrink reserve = some b' ∧ b'.readable = content ∧ reserve ≤ b'.writableBytes ∧
      b'.prependableBytes = kCheapPrepend := by
  obtain ⟨other, hnew, hfresh⟩ := initial_fresh
  obtain ⟨other', he, hfresh', hroom⟩ := hfresh.enuserWritableBytes_spec hsum
  obtain ⟨b', ha, hread, hprep, hwritable⟩ :=
    hfresh'.append_spec (show content.length ≤ _ by omega)
  refine ⟨b', ?_, hread, by omega, hprep⟩
  rw [shrink, hnew, addWord_of_lt (by omega)]
  simp only [Option.bind_eq_bind, Option.bind_some, he, appendPiece, hbytes, ha]

theorem shrinkKeeps_of_passes (hpass : PassesInt b.readableBytes)
    (hsum : b.readableBytes + reserve + kCheapPrepend < wordSize) : b.ShrinkKeeps reserve :=
  shrink_of_bytes (bytes_toStringPiece h hpass) (Nat.le_of_eq h.length_readable) hsum

omit h in
/-- What a call of `shrink` that comes to its end has done. -/
theorem shrink_inv {b' : Buffer} (hs : b.shrink reserve = some b') :
    ∃ other other' content, new kInitialSize = some other ∧
      other.enuserWritableBytes (addWord b.readableBytes reserve) = some other' ∧
        b.toStringPiece.bytes = some content ∧ other'.append content = some b' := by
  rw [shrink] at hs
  obtain ⟨other, hnew, hs⟩ := Option.bind_eq_some_iff.mp hs
  obtain ⟨other', he, hs⟩ := Option.bind_eq_some_iff.mp hs
  obtain ⟨content, hbytes, ha⟩ := Option.bind_eq_some_iff.mp hs
  exact ⟨other, other', content, hnew, he, hbytes, ha⟩

/-- The new buffer gets as many bytes as the narrowed size says. -/
theorem passes_of_shrinkKeeps (hfits : b.readableBytes + reserve < wordSize)
    (hkeeps : b.ShrinkKeeps reserve) :
    PassesInt b.readableBytes ∧ b.readableBytes + reserve + kCheapPrepend < wordSize := by
  obtain ⟨b', hs, hread, -⟩ := hkeeps
  obtain ⟨other, other', content, hnew, he, hbytes, ha⟩ := shrink_inv hs
  obtain ⟨fresh, hnew', hfresh⟩ := initial_fresh
  obtain rfl := Option.some.inj (hnew'.symm.trans hnew)
  rw [addWord_of_lt hfits] at he
  have hsum := hfresh.lt_of_enuserWritableBytes hfits he
  refine ⟨?_, hsum⟩
  obtain ⟨other'', he', hfresh', -⟩ := hfresh.enuserWritableBytes_spec hsum
  obtain rfl := Option.some.inj (he'.symm.trans he)
  have hlen := (StringPiece.length_of_bytes hbytes).1
  rw [size_toStringPiece] at hlen
  have hcontent : b'.readable = content :=
    hfresh'.readable_of_append (hlen ▸ castSize_lt _) ha
  rw [PassesInt, ← hlen, ← hcontent, hread, h.length_readable]

/-- `shrink` does what it is for exactly if the number of readable bytes passes through an
`int`, and the new buffer with its prepended bytes has a size. -/
theorem shrinkKeeps_iff (hfits : b.readableBytes + reserve < wordSize) :
    b.ShrinkKeeps reserve ↔
      PassesInt b.readableBytes ∧ b.readableBytes + reserve + kCheapPrepend < wordSize :=
  ⟨passes_of_shrinkKeeps h hfits, fun hpass => shrinkKeeps_of_passes h hpass.1 hpass.2⟩

end Shrink

/-- A buffer of 4 GiB loses its content: narrowed to an `int`, its size is 0. -/
theorem shrinkKeeps_fails :
    ∃ b : Buffer, b = ⟨List.replicate 4294967304 0, 8, 4294967304⟩ ∧ b.Indexed ∧
      b.readableBytes + 0 < wordSize ∧ b.readable.length = 4294967296 ∧
        (∃ b', b.shrink 0 = some b' ∧ b'.readable = []) ∧ ¬ b.ShrinkKeeps 0 := by
  have hi : (Buffer.mk (List.replicate 4294967304 0) 8 4294967304).Indexed := by
    constructor
    · decide
    · rw [List.length_replicate]
    · rw [List.length_replicate]
      decide
    · rw [List.length_replicate]
      decide
  have hr : (Buffer.mk (List.replicate 4294967304 0) 8 4294967304).readableBytes = 4294967296 :=
    hi.readableBytes_eq
  have hcast : castSize (castInt (4294967296 : Nat)) = 0 := by decide
  have hfits : (4294967296 : Nat) + 0 < wordSize := by decide
  refine ⟨_, rfl, hi, by rw [hr]; exact hfits, hi.length_readable.trans hr, ?_, ?_⟩
  · have hbytes : (toStringPiece ⟨List.replicate 4294967304 0, 8, 4294967304⟩).bytes = some [] := by
      rw [StringPiece.bytes_eq, size_toStringPiece, hr, hcast, if_pos (Nat.zero_le _),
        List.take_zero]
    have hsum : readableBytes ⟨List.replicate 4294967304 0, 8, 4294967304⟩ + 0 + kCheapPrepend <
        wordSize := by
      rw [hr]
      decide
    obtain ⟨b', hs, hread, -⟩ := shrink_of_bytes hbytes (Nat.zero_le _) hsum
    exact ⟨b', hs, hread⟩
  · intro hkeeps
    have hpass := (passes_of_shrinkKeeps hi (by rw [hr]; exact hfits) hkeeps).1
    rw [hr, PassesInt, hcast] at hpass
    exact absurd hpass (by decide)

/-- Room for ten bytes beside three. -/
theorem shrinkKeeps_iff_three :
    (Buffer.mk [0, 0, 0, 0, 0, 0, 0, 0, 0, 1, 2, 3] 9 12).ShrinkKeeps 10 :=
  (shrinkKeeps_iff (by constructor <;> decide) (by decide)).mpr (by decide)

end Buffer

end Cnet.Net
