import Cnet.Support.Runs
import Cnet.Net.Buffer

/-!
# The buffer is a byte queue

What the buffer is for, stated without indices: bytes enter at the back (or at
the front, by `prepend`) and leave at the front (or at the back, by `unwrite`).
Each operation keeps the index invariant and acts on the readable bytes as the
queue operation does.
-/

namespace Cnet.Net

open Cnet.Support

/-- One call of a member function, with what the caller or the kernel supplies. -/
inductive BufferOp
  | append (data : Bytes)
  | retrieve (len : Nat)
  | retrieveAll
  | retrieveUntil (ahead : Nat)
  | retrieveAsString (len : Nat)
  | prepend (data : Bytes)
  | unwrite (len : Nat)
  | enuserWritableBytes (len : Nat)
  | writeThenHasWritten (data : Bytes) (len : Nat)
  | readFd (r : Buffer.ReadvResult)
deriving DecidableEq, Repr

/-- A byte queue together with the strings its owner has been given. -/
structure ByteQueue where
  bytes : Bytes
  returned : List Bytes
deriving DecidableEq, Repr

namespace ByteQueue

def empty : ByteQueue := ⟨[], []⟩

/-- The purpose of each operation. -/
def apply (q : ByteQueue) : BufferOp → ByteQueue
  | .append data => { q with bytes := q.bytes ++ data }
  | .retrieve len => { q with bytes := q.bytes.drop len }
  | .retrieveAll => { q with bytes := [] }
  | .retrieveUntil ahead => { q with bytes := q.bytes.drop ahead }
  | .retrieveAsString len =>
      { bytes := q.bytes.drop len, returned := q.returned ++ [q.bytes.take len] }
  | .prepend data => { q with bytes := data ++ q.bytes }
  | .unwrite len => { q with bytes := q.bytes.take (q.bytes.length - len) }
  | .enuserWritableBytes _ => q
  | .writeThenHasWritten data len => { q with bytes := q.bytes ++ data.take len }
  | .readFd (.bytes data) => { q with bytes := q.bytes ++ data }
  | .readFd .error => q

end ByteQueue

namespace Buffer

/-- The index invariant. -/
structure Indexed (b : Buffer) : Prop where
  ordered : b.readerIndex_ ≤ b.writerIndex_
  bounded : b.writerIndex_ ≤ b.buffer_.length
  headroom : kCheapPrepend ≤ b.buffer_.length
  fits : b.buffer_.length < wordSize

/-- The sums formed while making room for `len` bytes fit a `size_t`. -/
def Fits (b : Buffer) (len : Nat) : Prop :=
  b.writableBytes < len → len + kCheapPrepend < wordSize ∧ b.writerIndex_ + len < wordSize

instance (b : Buffer) (len : Nat) : Decidable (b.Fits len) := by
  unfold Fits; infer_instance

theorem Fits.congr {b c : Buffer} {len : Nat} (h : b.Fits len)
    (hsize : b.buffer_.length = c.buffer_.length) (hwriter : b.writerIndex_ = c.writerIndex_) :
    c.Fits len := by
  unfold Fits writableBytes at h ⊢
  rwa [← hsize, ← hwriter]

theorem Indexed.readableBytes_eq {b : Buffer} (h : b.Indexed) :
    b.readableBytes = b.writerIndex_ - b.readerIndex_ :=
  subWord_of_le h.ordered (Nat.lt_of_le_of_lt h.bounded h.fits)

theorem Indexed.writableBytes_eq {b : Buffer} (h : b.Indexed) :
    b.writableBytes = b.buffer_.length - b.writerIndex_ := subWord_of_le h.bounded h.fits

theorem Indexed.length_readable {b : Buffer} (h : b.Indexed) :
    b.readable.length = b.readableBytes := by
  rw [readable, length_slice h.bounded, h.readableBytes_eq]

/-- A fresh buffer of any size that fits passes the asserts of its constructor. -/
theorem new_spec {initialSize : Nat} (h : kCheapPrepend + initialSize < wordSize) :
    ∃ b, new initialSize = some b ∧ b.Indexed ∧ b.readable = [] := by
  have hlen : (List.replicate (addWord kCheapPrepend initialSize) (0 : Byte)).length =
      kCheapPrepend + initialSize := by rw [List.length_replicate, addWord_of_lt h]
  have hw : kCheapPrepend < wordSize := by decide
  refine ⟨{ buffer_ := List.replicate (addWord kCheapPrepend initialSize) 0,
            readerIndex_ := kCheapPrepend, writerIndex_ := kCheapPrepend }, ?_, ?_, ?_⟩
  · have hr : subWord kCheapPrepend kCheapPrepend = 0 := by decide
    have hs : subWord (kCheapPrepend + initialSize) kCheapPrepend = initialSize := by
      rw [subWord_of_le (by omega) h, Nat.add_sub_cancel_left]
    simp only [new, readableBytes, writableBytes, prependableBytes, hlen, hr, hs, assert]
    rfl
  · exact ⟨Nat.le_refl _, by dsimp only; omega, by dsimp only; omega, by dsimp only; omega⟩
  · exact slice_self _ _

theorem retrieveAll_spec {b : Buffer} (h : b.Indexed) :
    b.retrieveAll.Indexed ∧ b.retrieveAll.readable = [] :=
  ⟨⟨Nat.le_refl _, h.headroom, h.headroom, h.fits⟩, slice_self _ _⟩

theorem retrieve_spec {b : Buffer} (h : b.Indexed) {len : Nat} (hlen : len ≤ b.readableBytes) :
    ∃ b', b.retrieve len = some b' ∧ b'.Indexed ∧ b'.readable = b.readable.drop len := by
  have hr := h.readableBytes_eq
  have hord := h.ordered
  have hb := h.bounded
  by_cases hlt : len < b.readableBytes
  · have hsum : b.readerIndex_ + len < wordSize := by have := h.fits; omega
    refine ⟨{ b with readerIndex_ := b.readerIndex_ + len }, ?_, ?_, ?_⟩
    · simp [retrieve, assert, hlen, hlt, addWord_of_lt hsum]
    · exact ⟨by dsimp only; omega, hb, h.headroom, h.fits⟩
    · exact (drop_slice _ _ _ _).symm
  · refine ⟨b.retrieveAll, ?_, (retrieveAll_spec h).1, ?_⟩
    · simp [retrieve, assert, hlen, hlt]
    · rw [(retrieveAll_spec h).2, List.drop_eq_nil_of_le (by rw [h.length_readable]; omega)]

theorem retrieveUntil_spec {b : Buffer} (h : b.Indexed) {ahead : Nat}
    (hlen : ahead ≤ b.readableBytes) :
    ∃ b', b.retrieveUntil (b.peek + ahead) = some b' ∧ b'.Indexed ∧
      b'.readable = b.readable.drop ahead := by
  have hr := h.readableBytes_eq
  have hord := h.ordered
  have hb := h.bounded
  have hf := h.fits
  obtain ⟨b', he, hi, hd⟩ := retrieve_spec h hlen
  refine ⟨b', ?_, hi, hd⟩
  have hle : b.peek + ahead ≤ b.beginWrite := by unfold peek beginWrite; omega
  have hsub : subWord (b.peek + ahead) b.peek = ahead := by
    rw [subWord_of_le (by omega) (by unfold beginWrite at hle; omega), Nat.add_sub_cancel_left]
  simp [retrieveUntil, assert, hle, hsub, he]

theorem retrieveAsString_spec {b : Buffer} (h : b.Indexed) {len : Nat}
    (hlen : len ≤ b.readableBytes) :
    ∃ b', b.retrieveAsString len = some (b.readable.take len, b') ∧ b'.Indexed ∧
      b'.readable = b.readable.drop len := by
  have hr := h.readableBytes_eq
  have hord := h.ordered
  have hb := h.bounded
  obtain ⟨b', he, hi, hd⟩ := retrieve_spec h hlen
  refine ⟨b', ?_, hi, hd⟩
  have hload : load b.buffer_ b.peek len = some (b.readable.take len) := by
    rw [load_of_le (by unfold peek; omega), readable, take_slice _ (by omega)]
    rfl
  simp [retrieveAsString, assert, hlen, hload, he]

/-- The vector grows: the content stays where it is. -/
private theorem grow_spec {b : Buffer} (h : b.Indexed) {len : Nat}
    (hshort : b.writableBytes < len) :
    ∃ m, b.buffer_.take (b.writerIndex_ + len) ++
        List.replicate (b.writerIndex_ + len - b.buffer_.length) 0 = b.buffer_ ++ m ∧
      (b.buffer_ ++ m).length = b.writerIndex_ + len := by
  have hw := h.writableBytes_eq
  have hb := h.bounded
  refine ⟨List.replicate (b.writerIndex_ + len - b.buffer_.length) 0, ?_, ?_⟩
  · rw [List.take_of_length_le (by omega)]
  · rw [List.length_append, List.length_replicate]; omega

/-- The content moves down to `kCheapPrepend`, and the cells above it become writable. -/
private theorem compact_spec {b : Buffer} (h : b.Indexed) (len : Nat)
    (hroom : len + kCheapPrepend ≤ b.writableBytes + b.readerIndex_) :
    let b' : Buffer := {
      buffer_ := overwrite b.buffer_ kCheapPrepend b.readable
      readerIndex_ := kCheapPrepend
      writerIndex_ := kCheapPrepend + b.readableBytes }
    b'.Indexed ∧ b'.readable = b.readable ∧ len ≤ b'.writableBytes ∧
      b'.readableBytes = b.readableBytes := by
  have hr := h.readableBytes_eq
  have hw := h.writableBytes_eq
  have hord := h.ordered
  have hb := h.bounded
  have hl := h.length_readable
  have hfit : kCheapPrepend + b.readable.length ≤ b.buffer_.length := by omega
  intro b'
  have hi : b'.Indexed := by
    refine ⟨Nat.le_add_right _ _, ?_, ?_, ?_⟩
    · show kCheapPrepend + b.readableBytes ≤ (overwrite _ _ _).length
      rw [length_overwrite hfit]; omega
    · show kCheapPrepend ≤ (overwrite _ _ _).length
      rw [length_overwrite hfit]; exact h.headroom
    · show (overwrite _ _ _).length < wordSize
      rw [length_overwrite hfit]; exact h.fits
  refine ⟨hi, ?_, ?_, ?_⟩
  · show slice (overwrite _ _ _) kCheapPrepend (kCheapPrepend + b.readableBytes) = _
    rw [← hl]; exact slice_overwrite hfit
  · rw [hi.writableBytes_eq]
    show len ≤ (overwrite _ _ _).length - (kCheapPrepend + b.readableBytes)
    rw [length_overwrite hfit]; omega
  · rw [hi.readableBytes_eq]
    exact Nat.add_sub_cancel_left _ _

/-- `makeSpace` keeps the content and makes the room it was asked for; in its
second branch the assert on `readerIndex_` holds. -/
theorem makeSpace_spec {b : Buffer} (h : b.Indexed) {len : Nat}
    (hshort : b.writableBytes < len) (hfit : b.Fits len) :
    ∃ b', b.makeSpace len = some b' ∧ b'.Indexed ∧ b'.readable = b.readable ∧
      len ≤ b'.writableBytes := by
  obtain ⟨hlen, hsum⟩ := hfit hshort
  have hr := h.readableBytes_eq
  have hw := h.writableBytes_eq
  have hord := h.ordered
  have hb := h.bounded
  have hf := h.fits
  have hroom : addWord b.writableBytes b.prependableBytes = b.writableBytes + b.readerIndex_ :=
    addWord_of_lt (by unfold prependableBytes; omega)
  by_cases hgrow : b.writableBytes + b.readerIndex_ < len + kCheapPrepend
  · obtain ⟨m, hm, hml⟩ := grow_spec h hshort
    have hi : Indexed { b with buffer_ := b.buffer_ ++ m } :=
      ⟨hord, by dsimp only; omega, by have := h.headroom; dsimp only; omega,
        by dsimp only; omega⟩
    refine ⟨{ b with buffer_ := b.buffer_ ++ m }, ?_, hi, slice_grow m hb, ?_⟩
    · simp only [makeSpace, hroom, addWord_of_lt hlen, addWord_of_lt hsum, if_pos hgrow, hm]
      rfl
    · rw [hi.writableBytes_eq]; dsimp only; omega
  · have habove : kCheapPrepend < b.readerIndex_ := by omega
    obtain ⟨hi, hcontent, hspace, hsame⟩ := compact_spec h len (by omega)
    refine ⟨_, ?_, hi, hcontent, hspace⟩
    have hload : load b.buffer_ b.readerIndex_ b.readableBytes = some b.readable := by
      rw [load_of_le (by omega), readable, hr, Nat.add_sub_cancel' hord]
    have hstore : store b.buffer_ kCheapPrepend b.readable =
        some (overwrite b.buffer_ kCheapPrepend b.readable) :=
      store_of_le (by rw [h.length_readable]; omega)
    have hadd : addWord kCheapPrepend b.readableBytes = kCheapPrepend + b.readableBytes :=
      addWord_of_lt (by omega)
    simp only [makeSpace, hroom, addWord_of_lt hlen, if_neg hgrow, assert, if_pos habove, hload,
      hstore, hadd, Option.bind_eq_bind, Option.bind_some, if_pos hsame.symm, pure]

/-- After `enuserWritableBytes len` there is room for `len` bytes. -/
theorem enuserWritableBytes_spec {b : Buffer} (h : b.Indexed) {len : Nat} (hfit : b.Fits len) :
    ∃ b', b.enuserWritableBytes len = some b' ∧ b'.Indexed ∧ b'.readable = b.readable ∧
      len ≤ b'.writableBytes := by
  by_cases hshort : b.writableBytes < len
  · obtain ⟨b', he, hi, hc, hl⟩ := makeSpace_spec h hshort hfit
    exact ⟨b', by simp [enuserWritableBytes, hshort, he, assert, hl], hi, hc, hl⟩
  · have hl : len ≤ b.writableBytes := by omega
    exact ⟨b, by simp [enuserWritableBytes, hshort, assert, hl], h, rfl, hl⟩

/-- `data` stored at `beginWrite()`, of which `len` bytes are reported. -/
def stored (b : Buffer) (data : Bytes) (len : Nat) : Buffer :=
  { b with
    buffer_ := overwrite b.buffer_ b.writerIndex_ data
    writerIndex_ := b.writerIndex_ + len }

theorem stored_spec {b : Buffer} (h : b.Indexed) {data : Bytes} {len : Nat}
    (hroom : data.length ≤ b.writableBytes) (hlen : len ≤ data.length) :
    (b.stored data len).Indexed ∧ (b.stored data len).readable = b.readable ++ data.take len := by
  have hw := h.writableBytes_eq
  have hord := h.ordered
  have hb := h.bounded
  have hf := h.fits
  have hh := h.headroom
  have hfit : b.writerIndex_ + data.length ≤ b.buffer_.length := by omega
  have hl := length_overwrite hfit
  constructor
  · constructor <;> (dsimp only [stored]; omega)
  · have htake : slice (overwrite b.buffer_ b.writerIndex_ data) b.writerIndex_
        (b.writerIndex_ + len) = data.take len := by
      conv_rhs => rw [← slice_overwrite hfit, take_slice _ (by omega)]
    have hold : slice (overwrite b.buffer_ b.writerIndex_ data) b.readerIndex_ b.writerIndex_ =
        b.readable := slice_overwrite_before (Nat.le_refl _) hfit
    show slice (overwrite _ _ _) b.readerIndex_ (b.writerIndex_ + len) = _
    rw [← slice_append_slice _ hord (Nat.le_add_right _ _), htake, hold]

/-- Storing at `beginWrite()` and then `hasWritten` moves the stored bytes into the queue. -/
theorem writeThenHasWritten_eq {b : Buffer} (h : b.Indexed) {data : Bytes} {len : Nat}
    (hroom : data.length ≤ b.writableBytes) (hlen : len ≤ data.length) :
    b.writeThenHasWritten data len = some (b.stored data len) := by
  have hw := h.writableBytes_eq
  have hb := h.bounded
  have hf := h.fits
  have hfit : b.writerIndex_ + data.length ≤ b.buffer_.length := by omega
  have hwr : (Buffer.mk (overwrite b.buffer_ b.writerIndex_ data) b.readerIndex_
      b.writerIndex_).writableBytes = b.writableBytes := by
    simp only [writableBytes, length_overwrite hfit]
  simp only [writeThenHasWritten, hasWritten, beginWrite, store_of_le hfit, Option.bind_eq_bind,
    Option.bind_some, assert, hwr, if_pos (Nat.le_trans hlen hroom), pure,
    addWord_of_lt (show b.writerIndex_ + len < wordSize from by omega), stored]

theorem append_spec {b : Buffer} (h : b.Indexed) {data : Bytes} (hfit : b.Fits data.length) :
    ∃ b', b.append data = some b' ∧ b'.Indexed ∧ b'.readable = b.readable ++ data := by
  obtain ⟨b₁, he, hi, hc, hl⟩ := enuserWritableBytes_spec h hfit
  obtain ⟨hi₂, hc₂⟩ := stored_spec hi hl (Nat.le_refl data.length)
  refine ⟨b₁.stored data data.length, ?_, hi₂, by rw [hc₂, hc, List.take_length]⟩
  simp only [append, he, Option.bind_eq_bind, Option.bind_some]
  exact writeThenHasWritten_eq hi hl (Nat.le_refl _)

/-- Making room never moves the writer index up. -/
theorem writerIndex_makeSpace {b b' : Buffer} {len : Nat} (h : b.Indexed)
    (hm : b.makeSpace len = some b') : b'.writerIndex_ ≤ b.writerIndex_ := by
  rw [makeSpace] at hm
  by_cases hgrow : addWord b.writableBytes b.prependableBytes < addWord len kCheapPrepend
  · rw [if_pos hgrow] at hm
    obtain rfl := Option.some.inj hm
    exact Nat.le_refl _
  · rw [if_neg hgrow] at hm
    obtain ⟨habove, hm⟩ := bind_assert.mp hm
    obtain ⟨content, -, hm⟩ := Option.bind_eq_some_iff.mp hm
    obtain ⟨cells, -, hm⟩ := Option.bind_eq_some_iff.mp hm
    obtain ⟨-, hm⟩ := bind_assert.mp hm
    obtain rfl := Option.some.inj hm
    have hr := h.readableBytes_eq
    have hord := h.ordered
    have hmod : addWord kCheapPrepend b.readableBytes ≤ kCheapPrepend + b.readableBytes :=
      Nat.mod_le _ _
    show addWord kCheapPrepend b.readableBytes ≤ b.writerIndex_
    omega

theorem writerIndex_enuserWritableBytes {b b' : Buffer} {len : Nat} (h : b.Indexed)
    (he : b.enuserWritableBytes len = some b') : b'.writerIndex_ ≤ b.writerIndex_ := by
  rw [enuserWritableBytes] at he
  by_cases hshort : b.writableBytes < len
  · rw [if_pos hshort] at he
    obtain ⟨b₁, hm, he⟩ := Option.bind_eq_some_iff.mp he
    obtain ⟨-, he⟩ := bind_assert.mp he
    obtain rfl := Option.some.inj he
    exact writerIndex_makeSpace h hm
  · rw [if_neg hshort] at he
    obtain ⟨-, he⟩ := bind_assert.mp he
    obtain rfl := Option.some.inj he
    exact Nat.le_refl _

theorem writerIndex_append {b b' : Buffer} {data : Bytes} (h : b.Indexed)
    (ha : b.append data = some b') : b'.writerIndex_ ≤ b.writerIndex_ + data.length := by
  obtain ⟨b₁, he, ha⟩ := Option.bind_eq_some_iff.mp ha
  obtain ⟨cells, -, ha⟩ := Option.bind_eq_some_iff.mp ha
  obtain ⟨-, ha⟩ := bind_assert.mp ha
  obtain rfl := Option.some.inj ha
  have hle := writerIndex_enuserWritableBytes h he
  have hmod : addWord b₁.writerIndex_ data.length ≤ b₁.writerIndex_ + data.length := Nat.mod_le _ _
  show addWord b₁.writerIndex_ data.length ≤ _
  omega

theorem prepend_spec {b : Buffer} (h : b.Indexed) {data : Bytes}
    (hroom : data.length ≤ b.prependableBytes) :
    ∃ b', b.prepend data = some b' ∧ b'.Indexed ∧ b'.readable = data ++ b.readable := by
  have hord := h.ordered
  have hb := h.bounded
  have hf := h.fits
  have hsub : subWord b.readerIndex_ data.length = b.readerIndex_ - data.length :=
    subWord_of_le hroom (by omega)
  have hle : data.length ≤ b.readerIndex_ := hroom
  have hfit : b.readerIndex_ - data.length + data.length ≤ b.buffer_.length := by omega
  have hl := length_overwrite hfit
  refine ⟨Buffer.mk (overwrite b.buffer_ (b.readerIndex_ - data.length) data)
    (b.readerIndex_ - data.length) b.writerIndex_, ?_, ?_, ?_⟩
  · simp only [prepend, assert, if_pos hroom, hsub, store_of_le hfit, Option.bind_eq_bind,
      Option.bind_some, pure]
  · exact ⟨by dsimp only; omega, by dsimp only; omega, by dsimp only; have := h.headroom; omega,
      by dsimp only; omega⟩
  · show slice (overwrite _ _ _) (b.readerIndex_ - data.length) b.writerIndex_ = _
    have hcut : b.readerIndex_ - data.length + data.length = b.readerIndex_ :=
      Nat.sub_add_cancel hle
    have hnew := slice_overwrite hfit
    have hold : slice (overwrite b.buffer_ (b.readerIndex_ - data.length) data)
        b.readerIndex_ b.writerIndex_ = b.readable :=
      slice_overwrite_after (Nat.le_of_eq hcut) hfit
    rw [hcut] at hnew
    rw [← slice_append_slice _ (Nat.sub_le b.readerIndex_ data.length) hord, hnew, hold]

theorem unwrite_spec {b : Buffer} (h : b.Indexed) {len : Nat} (hlen : len ≤ b.readableBytes) :
    ∃ b', b.unwrite len = some b' ∧ b'.Indexed ∧
      b'.readable = b.readable.take (b.readable.length - len) := by
  have hr := h.readableBytes_eq
  have hord := h.ordered
  have hb := h.bounded
  have hf := h.fits
  have hsub : subWord b.writerIndex_ len = b.writerIndex_ - len :=
    subWord_of_le (by omega) (by omega)
  refine ⟨{ b with writerIndex_ := b.writerIndex_ - len }, ?_, ?_, ?_⟩
  · simp [unwrite, assert, hlen, hsub]
  · exact ⟨by dsimp only; omega, by dsimp only; omega, h.headroom, hf⟩
  · rw [h.length_readable, readable, readable, take_slice _ (by omega)]
    congr 1
    dsimp only
    omega

theorem readFd_spec {b : Buffer} (h : b.Indexed) {data : Bytes}
    (hfit : b.writableBytes < data.length →
      Fits { b with writerIndex_ := b.buffer_.length } (data.length - b.writableBytes)) :
    ∃ b', b.readFd (.bytes data) = some b' ∧ b'.Indexed ∧ b'.readable = b.readable ++ data := by
  have hw := h.writableBytes_eq
  have hb := h.bounded
  have hf := h.fits
  by_cases hle : data.length ≤ b.writableBytes
  · obtain ⟨hi, hc⟩ := stored_spec h hle (Nat.le_refl data.length)
    refine ⟨b.stored data data.length, ?_, hi, by rw [hc, List.take_length]⟩
    have hst : b.writerIndex_ + data.length ≤ b.buffer_.length := by omega
    simp only [readFd, List.take_of_length_le hle, store_of_le hst, Option.bind_eq_bind,
      Option.bind_some, if_pos hle, addWord_of_lt (Nat.lt_of_le_of_lt hst hf), stored]
    rfl
  · -- the first `writable` bytes fill the vector, the rest goes through `append`
    have hlen : (data.take b.writableBytes).length = b.writableBytes := by
      rw [List.length_take]; omega
    obtain ⟨hi, hc⟩ := stored_spec h (Nat.le_of_eq hlen)
      (Nat.le_refl (data.take b.writableBytes).length)
    have hst : b.writerIndex_ + (data.take b.writableBytes).length ≤ b.buffer_.length := by omega
    have hl := length_overwrite hst
    have hfull : b.stored (data.take b.writableBytes) (data.take b.writableBytes).length =
        { b with
          buffer_ := overwrite b.buffer_ b.writerIndex_ (data.take b.writableBytes)
          writerIndex_ := b.buffer_.length } := by
      rw [stored, hlen, hw, Nat.add_sub_cancel' hb]
    have hfit' : (b.stored (data.take b.writableBytes)
        (data.take b.writableBytes).length).Fits (data.drop b.writableBytes).length := by
      rw [hfull, List.length_drop]
      exact (hfit (by omega)).congr hl.symm rfl
    obtain ⟨b₂, ha, hi₂, hc₂⟩ := append_spec hi hfit'
    refine ⟨b₂, ?_, hi₂, ?_⟩
    · rw [hfull] at ha
      simp only [readFd, store_of_le hst, Option.bind_eq_bind, Option.bind_some, if_neg hle, hl]
      exact ha
    · rw [hc₂, hc, List.take_length, List.append_assoc, List.take_append_drop]

end Buffer

/-- A buffer and the strings its owner has been given. -/
abbrev BufferUse := Buffer × List Bytes

namespace BufferUse

/-- Run one member function. -/
def exec (u : BufferUse) : BufferOp → Option BufferUse
  | .append data => (u.1.append data).map (·, u.2)
  | .retrieve len => (u.1.retrieve len).map (·, u.2)
  | .retrieveAll => some (u.1.retrieveAll, u.2)
  | .retrieveUntil ahead => (u.1.retrieveUntil (u.1.peek + ahead)).map (·, u.2)
  | .retrieveAsString len => (u.1.retrieveAsString len).map fun r => (r.2, u.2 ++ [r.1])
  | .prepend data => (u.1.prepend data).map (·, u.2)
  | .unwrite len => (u.1.unwrite len).map (·, u.2)
  | .enuserWritableBytes len => (u.1.enuserWritableBytes len).map (·, u.2)
  | .writeThenHasWritten data len => (u.1.writeThenHasWritten data len).map (·, u.2)
  | .readFd r => (u.1.readFd r).map (·, u.2)

/-- What each member function asserts of its caller, and that the sizes it adds
up fit a `size_t`. The kernel never scatters more than the room it was offered. -/
def Pre (u : BufferUse) : BufferOp → Prop
  | .append data => u.1.Fits data.length
  | .retrieve len => len ≤ u.1.readableBytes
  | .retrieveAll => True
  | .retrieveUntil ahead => ahead ≤ u.1.readableBytes
  | .retrieveAsString len => len ≤ u.1.readableBytes
  | .prepend data => data.length ≤ u.1.prependableBytes
  | .unwrite len => len ≤ u.1.readableBytes
  | .enuserWritableBytes len => u.1.Fits len
  | .writeThenHasWritten data len => data.length ≤ u.1.writableBytes ∧ len ≤ data.length
  | .readFd .error => True
  | .readFd (.bytes data) => data.length ≤ u.1.readvRoom ∧
      (u.1.writableBytes < data.length →
        Buffer.Fits { u.1 with writerIndex_ := u.1.buffer_.length }
          (data.length - u.1.writableBytes))

instance (u : BufferUse) : (op : BufferOp) → Decidable (Pre u op)
  | .append data => inferInstanceAs (Decidable (u.1.Fits data.length))
  | .retrieve len => inferInstanceAs (Decidable (len ≤ u.1.readableBytes))
  | .retrieveAll => inferInstanceAs (Decidable True)
  | .retrieveUntil ahead => inferInstanceAs (Decidable (ahead ≤ u.1.readableBytes))
  | .retrieveAsString len => inferInstanceAs (Decidable (len ≤ u.1.readableBytes))
  | .prepend data => inferInstanceAs (Decidable (data.length ≤ u.1.prependableBytes))
  | .unwrite len => inferInstanceAs (Decidable (len ≤ u.1.readableBytes))
  | .enuserWritableBytes len => inferInstanceAs (Decidable (u.1.Fits len))
  | .writeThenHasWritten data len =>
      inferInstanceAs (Decidable (data.length ≤ u.1.writableBytes ∧ len ≤ data.length))
  | .readFd .error => inferInstanceAs (Decidable True)
  | .readFd (.bytes data) => inferInstanceAs (Decidable (data.length ≤ u.1.readvRoom ∧
      (u.1.writableBytes < data.length →
        Buffer.Fits { u.1 with writerIndex_ := u.1.buffer_.length }
          (data.length - u.1.writableBytes))))

/-- The refinement relation: the invariant, and equal contents. -/
structure Refines (u : BufferUse) (q : ByteQueue) : Prop where
  indexed : u.1.Indexed
  readable : u.1.readable = q.bytes
  returned : u.2 = q.returned

private theorem refines_map {o : Option Buffer} {returned : List Bytes} {q : ByteQueue}
    {content : Bytes} (hret : returned = q.returned)
    (h : ∃ b, o = some b ∧ b.Indexed ∧ b.readable = content) (hc : content = q.bytes) :
    ∃ u, o.map (·, returned) = some u ∧ Refines u q := by
  obtain ⟨b, he, hi, hb⟩ := h
  exact ⟨(b, returned), by rw [he]; rfl, hi, hb.trans hc, hret⟩

/-- One call: no assert fails, no access is out of bounds, and the queue moves as intended. -/
theorem exec_refines {u : BufferUse} {q : ByteQueue} {op : BufferOp}
    (h : Refines u q) (hpre : Pre u op) :
    ∃ v, exec u op = some v ∧ Refines v (q.apply op) := by
  obtain ⟨hi, hc, hret⟩ := h
  cases op with
  | append data =>
    exact refines_map hret (Buffer.append_spec hi hpre) (congrArg (· ++ data) hc)
  | retrieve len =>
    exact refines_map hret (Buffer.retrieve_spec hi hpre) (congrArg (List.drop len) hc)
  | retrieveAll =>
    obtain ⟨hi', hc'⟩ := Buffer.retrieveAll_spec hi
    exact ⟨(u.1.retrieveAll, u.2), rfl, hi', hc', hret⟩
  | retrieveUntil ahead =>
    exact refines_map hret (Buffer.retrieveUntil_spec hi hpre) (congrArg (List.drop ahead) hc)
  | retrieveAsString len =>
    obtain ⟨b, he, hi', hc'⟩ := Buffer.retrieveAsString_spec hi hpre
    refine ⟨(b, u.2 ++ [u.1.readable.take len]), ?_, hi', ?_, ?_⟩
    · simp only [exec, he, Option.map_some]
    · rw [hc', hc]; rfl
    · simp only [ByteQueue.apply, hc, hret]
  | prepend data =>
    exact refines_map hret (Buffer.prepend_spec hi hpre) (congrArg (data ++ ·) hc)
  | unwrite len =>
    exact refines_map hret (Buffer.unwrite_spec hi hpre)
      (congrArg (fun s => s.take (s.length - len)) hc)
  | enuserWritableBytes len =>
    obtain ⟨b, he, hi', hc', _⟩ := Buffer.enuserWritableBytes_spec hi hpre
    exact refines_map hret ⟨b, he, hi', hc'⟩ hc
  | writeThenHasWritten data len =>
    exact refines_map hret ⟨_, Buffer.writeThenHasWritten_eq hi hpre.1 hpre.2,
      Buffer.stored_spec hi hpre.1 hpre.2⟩ (congrArg (· ++ data.take len) hc)
  | readFd r =>
    cases r with
    | bytes data =>
      exact refines_map hret (Buffer.readFd_spec hi hpre.2) (congrArg (· ++ data) hc)
    | error => exact ⟨u, rfl, hi, hc, hret⟩

/-- The state right after the constructor, as the owner sees it. -/
def start (initialSize : Nat) : Option BufferUse :=
  (Buffer.new initialSize).map (·, [])

end BufferUse

/-- Every sequence of calls within their preconditions runs to its end, keeps
`readerIndex_ ≤ writerIndex_ ≤ buffer_.size()` and holds the bytes of the abstract
queue; and whenever room for `len` bytes is asked for, it is there afterwards. -/
theorem buffer_refines_byteQueue (initialSize : Nat)
    (hsize : Buffer.kCheapPrepend + initialSize < wordSize) :
    ∃ u₀, BufferUse.start initialSize = some u₀ ∧
      ∀ ops, StepsMeet BufferUse.exec BufferUse.Pre u₀ ops →
        ∃ u, run BufferUse.exec u₀ ops = some u ∧
          u.1.readerIndex_ ≤ u.1.writerIndex_ ∧ u.1.writerIndex_ ≤ u.1.buffer_.length ∧
          u.1.readable = (ops.foldl ByteQueue.apply ByteQueue.empty).bytes ∧
          u.2 = (ops.foldl ByteQueue.apply ByteQueue.empty).returned ∧
          ∀ len, u.1.Fits len → ∃ b, u.1.enuserWritableBytes len = some b ∧
            len ≤ b.writableBytes ∧ b.readable = u.1.readable := by
  obtain ⟨b₀, hnew, hi₀, hc₀⟩ := Buffer.new_spec hsize
  refine ⟨(b₀, []), by rw [BufferUse.start, hnew]; rfl, fun ops hok => ?_⟩
  obtain ⟨u, hrun, hR⟩ := run_refines BufferUse.exec
    (fun _ _ _ hR hpre => BufferUse.exec_refines hR hpre)
    (show BufferUse.Refines (b₀, []) ByteQueue.empty from ⟨hi₀, hc₀, rfl⟩) hok
  refine ⟨u, hrun, hR.indexed.ordered, hR.indexed.bounded, hR.readable, hR.returned, ?_⟩
  intro len hfit
  obtain ⟨b, he, _, hc, hl⟩ := Buffer.enuserWritableBytes_spec hR.indexed hfit
  exact ⟨b, he, hl, hc⟩

/-- A buffer of four bytes that is read into beyond its end, with the two-part scatter. -/
theorem buffer_refines_byteQueue_four :
    ∃ u₀ u, BufferUse.start 4 = some u₀ ∧
      run BufferUse.exec u₀ [.append [1, 2, 3], .retrieve 1, .prepend [9],
        .readFd (.bytes [7, 8])] = some u ∧ u.1.readable = [9, 2, 3, 7, 8] := by
  obtain ⟨u₀, hstart, hall⟩ := buffer_refines_byteQueue 4 (by decide)
  obtain rfl : _ = u₀ := Option.some.inj hstart
  obtain ⟨u, hrun, _, _, hbytes, _⟩ := hall [.append [1, 2, 3], .retrieve 1, .prepend [9],
      .readFd (.bytes [7, 8])] <|
    .cons _ (by decide) rfl <| .cons _ (by decide) rfl <| .cons _ (by decide) rfl <|
      .cons _ (by decide) rfl True.intro
  exact ⟨_, u, hstart, hrun, hbytes⟩

end Cnet.Net
