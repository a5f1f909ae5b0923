import Cnet.Support.Runs
import Cnet.Net.Shrink

/-!
# Strings appended to a buffer

Requests and responses are written string by string, and every string is passed on in a
`StringPiece`, whose length is an `int`. A string that is too long for that loses bytes, or
more is asked for than there is.
-/

namespace Cnet.Net

open Cnet.Support
open Cnet.Base

section Parts

variable {α : Type} {f : α → Option Bytes}

theorem mapM_of_forall {g : α → Bytes} {l : List α} (h : ∀ a ∈ l, f a = some (g a)) :
    l.mapM f = some (l.map g) := by
  induction l with
  | nil => rfl
  | cons a l ih =>
    obtain ⟨ha, hl⟩ := List.forall_mem_cons.mp h
    rw [List.mapM_cons, ha, ih hl]
    rfl

/-- Where each part is no longer than it should be, and whole only under some condition,
all parts together are as long as they should be only if the condition holds of each. -/
theorem length_of_mapM {g : α → Bytes} {P : α → Prop}
    (hf : ∀ a copy, f a = some copy →
      copy.length ≤ (g a).length ∧ (copy.length = (g a).length → P a))
    {l : List α} {copies : List Bytes} (h : l.mapM f = some copies) :
    copies.flatten.length ≤ (l.flatMap g).length ∧
      (copies.flatten.length = (l.flatMap g).length → ∀ a ∈ l, P a) := by
  induction l generalizing copies with
  | nil =>
    obtain rfl := Option.some.inj h
    exact ⟨Nat.le_refl _, fun _ => List.forall_mem_nil _⟩
  | cons a l ih =>
    rw [List.mapM_cons] at h
    obtain ⟨copy, ha, h⟩ := Option.bind_eq_some_iff.mp h
    obtain ⟨rest, hrest, h⟩ := Option.bind_eq_some_iff.mp h
    obtain rfl := Option.some.inj h
    obtain ⟨hle, hwhole⟩ := hf a copy ha
    obtain ⟨hlerest, hwholerest⟩ := ih hrest
    rw [List.flatten_cons, List.flatMap_cons, List.length_append, List.length_append]
    refine ⟨by omega, fun heq => List.forall_mem_cons.mpr ⟨hwhole ?_, hwholerest ?_⟩⟩
    · omega
    · omega

end Parts

/-- `append` of one string after the other. -/
def Buffer.appendStrings (strings : List Bytes) (output : Buffer) : Option Buffer :=
  run Buffer.appendPiece output (strings.map .ofString)

/-- The bytes that are appended, where every `append` comes to its end. -/
def appended (strings : List Bytes) : Option Bytes :=
  (strings.mapM fun s => (StringPiece.ofString s).bytes).map List.flatten

variable {s out : Bytes} {strings : List Bytes}

theorem appended_cons (s : Bytes) (strings : List Bytes) :
    appended (s :: strings) = (StringPiece.ofString s).bytes.bind fun copy =>
      (appended strings).map (copy ++ ·) := by
  rw [appended, List.mapM_cons]
  cases (StringPiece.ofString s).bytes with
  | none => rfl
  | some copy =>
    rw [appended]
    cases strings.mapM fun s => (StringPiece.ofString s).bytes with
    | none => rfl
    | some copies => rfl

theorem appended_of_passes (h : ∀ s ∈ strings, PassesInt s.length) :
    appended strings = some strings.flatten := by
  have hbytes : ∀ s ∈ strings, (StringPiece.ofString s).bytes = some (id s) :=
    fun s hs => StringPiece.bytes_ofString (h s hs)
  rw [appended, mapM_of_forall hbytes, List.map_id, Option.map_some]

theorem length_of_appended (h : appended strings = some out) :
    out.length ≤ strings.flatten.length ∧
      (out.length = strings.flatten.length → ∀ s ∈ strings, PassesInt s.length) := by
  obtain ⟨copies, hcopies, rfl⟩ := Option.map_eq_some_iff.mp h
  have hlen := length_of_mapM (g := id)
    (fun _ _ => StringPiece.length_of_bytes_ofString) hcopies
  rwa [List.flatMap_id] at hlen

/-- The first string, which passes, and what comes of the others. -/
theorem appended_cons_inv (hs : PassesInt s.length) (h : appended (s :: strings) = some out) :
    ∃ rest, appended strings = some rest ∧ out = s ++ rest := by
  rw [appended_cons, StringPiece.bytes_ofString hs, Option.bind_some] at h
  obtain ⟨rest, hrest, rfl⟩ := Option.map_eq_some_iff.mp h
  exact ⟨rest, hrest, rfl⟩

section Buffer

variable {b : Buffer} {copies : List Bytes}

theorem run_appendPiece (h : b.Indexed)
    (hcopies : strings.mapM (fun s => (StringPiece.ofString s).bytes) = some copies)
    (hfit : b.writerIndex_ + copies.flatten.length + Buffer.kCheapPrepend < wordSize) :
    ∃ b', b.appendStrings strings = some b' ∧ b'.readable = b.readable ++ copies.flatten := by
  induction strings generalizing b copies with
  | nil =>
    obtain rfl := Option.some.inj hcopies
    exact ⟨b, rfl, (List.append_nil _).symm⟩
  | cons s strings ih =>
    rw [List.mapM_cons] at hcopies
    obtain ⟨copy, hcopy, hcopies⟩ := Option.bind_eq_some_iff.mp hcopies
    obtain ⟨rest, hrest, hcopies⟩ := Option.bind_eq_some_iff.mp hcopies
    obtain rfl := Option.some.inj hcopies
    rw [List.flatten_cons, List.length_append] at hfit
    have hroom : b.Fits copy.length := fun _ => ⟨by omega, by omega⟩
    obtain ⟨b₁, ha, hi, hread⟩ := Buffer.append_spec h hroom
    have hwriter := Buffer.writerIndex_append h ha
    obtain ⟨b₂, hrun, hread₂⟩ := ih hi hrest (by omega)
    refine ⟨b₂, ?_, ?_⟩
    · rw [Buffer.appendStrings, List.map_cons, run_cons, Buffer.appendPiece, hcopy,
        Option.bind_some, ha]
      exact hrun
    · rw [hread₂, hread, List.flatten_cons, List.append_assoc]

/-- On a buffer with room for them, the strings come behind what is there. -/
theorem Buffer.appendStrings_spec (h : b.Indexed) (hout : appended strings = some out)
    (hfit : b.writerIndex_ + out.length + Buffer.kCheapPrepend < wordSize) :
    ∃ b', b.appendStrings strings = some b' ∧ b'.readable = b.readable ++ out := by
  obtain ⟨copies, hcopies, rfl⟩ := Option.map_eq_some_iff.mp hout
  exact run_appendPiece h hcopies hfit

end Buffer

end Cnet.Net
