import Cnet.Examples.Memcached.SessionTurns

/-!
# Runs of a session

Input comes in segments, in between other sessions change the store. How the input is cut
makes no difference while no line is so long that the connection is shut down, and the
process aborts in the places that `Fails` says and in no others.
-/

namespace Cnet.Examples.Memcached.Session

open Cnet.Support Cnet.Base
open Cnet.Net (Bytes)
open MemcacheServer (Refines)

variable {hash : Bytes → Nat} {startTime : Int} {s s' : Session} {m : Contents}
  {buf buf' l l' more : Bytes} {n : Nat}

/-! ## Messages -/

section

variable (hash startTime)

/-- Segments one after the other; what is left of one in the buffer is before the next. -/
def onMessages : List Bytes → Session × Bytes → Option (Session × Bytes)
  | [], p => some p
  | segment :: segments, (s, buf) => do
    let p ← s.onMessage hash startTime (buf ++ segment)
    onMessages segments p

/-- A session and its input buffer between two messages. Others may work on the store. -/
inductive Reach : Session → Bytes → Prop
  | new {owner : MemcacheServer} (hstore : ∃ m, Refines hash owner m) : Reach (new owner) []
  | message {s s' : Session} {buf segment buf' : Bytes} (h : Reach s buf)
      (hmsg : s.onMessage hash startTime (buf ++ segment) = some (s', buf')) : Reach s' buf'
  | others {s : Session} {buf : Bytes} (h : Reach s buf) {owner : MemcacheServer}
      (hstore : ∃ m, Refines hash owner m) : Reach { s with owner_ := owner } buf

end

/-- The input in the buffer is part of a line, and no more. -/
def Waits (s : Session) (buf : Bytes) : Prop :=
  buf = [] ∨ s.state_ = .kNewCommand ∧ findCRLF buf = none

theorem turn_eq_wait_iff : s.turn hash startTime buf = .wait ↔ s.Waits buf := by
  by_cases hne : buf = []
  · subst hne
    exact ⟨fun _ => .inl rfl, fun _ => turn_nil s⟩
  have hgoes (r : Option (Session × Bytes)) : (Turn.ofOption r = .wait) ↔ False := by
    cases r <;> exact ⟨nofun, False.elim⟩
  rw [turn, if_neg hne, Waits]
  cases s.state_ with
  | kNewCommand =>
    cases hline : findCRLF buf with
    | none => exact ⟨fun _ => .inr ⟨rfl, rfl⟩, fun _ => rfl⟩
    | some n => simp only [hgoes, hne, reduceCtorEq, and_false, or_false]
  | kReceiveValue => simp only [hgoes, hne, reduceCtorEq, false_and, or_false]
  | kDiscardValue => simp only [hgoes, hne, reduceCtorEq, false_and, or_false]

theorem onMessage_eq_some (hmsg : s.onMessage hash startTime buf = some (s', buf')) :
    ∃ s₁, Turn.settle (turn hash startTime) (buf.length + 1) s buf = some (s₁, buf') ∧
      s' = if s₁.Overlong buf' then { s₁ with conn_ := s₁.conn_.shutdown } else s₁ := by
  obtain ⟨⟨s₁, buf₁⟩, hsettle, hpair⟩ := Option.bind_eq_some_iff.mp hmsg
  obtain ⟨hs, rfl⟩ := Prod.mk.inj (Option.some.inj hpair)
  exact ⟨s₁, hsettle, hs.symm⟩

theorem onMessage_eq_none_iff : s.onMessage hash startTime buf = none ↔
    Turn.settle (turn hash startTime) (buf.length + 1) s buf = none := by
  rw [onMessage, Option.bind_eq_bind, Option.bind_eq_none_iff]
  constructor
  · intro h
    rw [Option.eq_none_iff_forall_not_mem]
    exact fun p hp => absurd (h p hp) nofun
  · intro h p hp
    exact absurd (h.symm.trans hp) nofun

/-- The store and the connection have no part in where the session is. -/
theorem Stage.frame (h : s.Stage) (owner : MemcacheServer) (conn : Connection) :
    Stage { s with owner_ := owner, conn_ := conn } := by
  rw [Stage] at h ⊢
  cases hstate : s.state_ with
  | kNewCommand =>
    rw [hstate] at h
    exact ⟨h.command_eq, h.noreply_eq, h.policy_eq, h.currItem_eq, h.bytesToDiscard_eq⟩
  | kReceiveValue => rwa [hstate] at h
  | kDiscardValue => rwa [hstate] at h

theorem Reach.inv (h : Reach hash startTime s buf) : Inv hash s ∧ s.Waits buf := by
  induction h with
  | new hstore => exact ⟨⟨hstore, rfl, rfl, rfl, rfl, rfl⟩, .inl rfl⟩
  | message h hmsg ih =>
    obtain ⟨s₁, hsettle, rfl⟩ := onMessage_eq_some hmsg
    obtain ⟨hstore, hstage⟩ := consumes.inv_of_settle ih.1 hsettle
    have hwaits := turn_eq_wait_iff.mp (Turn.wait_of_settle hsettle)
    split
    · exact ⟨⟨hstore, hstage.frame _ _⟩, hwaits⟩
    · exact ⟨⟨hstore, hstage⟩, hwaits⟩
  | others h hstore ih => exact ⟨⟨hstore, ih.1.stage.frame _ _⟩, ih.2⟩

/-! ## Where the process aborts -/

/-- No line that the session comes to is so long that it waits for the end in vain. -/
def Patient (hash : Bytes → Nat) (startTime : Int) (s : Session) (l : Bytes) : Prop :=
  ∀ s' l', Turn.Visits (turn hash startTime) s l s' l' → s'.state_ = .kNewCommand →
    (∃ n, findCRLF l' = some n ∧ n < 1024) ∨ l'.length ≤ 1024

/-- A line that is complete with more input is not complete without. -/
theorem length_le_of_line (hline : findCRLF (l ++ more) = some n) (hnone : findCRLF l = none) :
    l.length ≤ n + 1 := by
  obtain ⟨front, rest, hsplit, hlen, hfound⟩ := findPair_some 13 10 hline
  by_contra hlong
  have hfront : (front ++ [13, 10]).length = n + 2 := by
    rw [List.length_append, hlen]
    rfl
  have hprefix : front ++ [13, 10] <+: l ++ more := ⟨rest, by rw [hsplit]; simp⟩
  obtain ⟨tail, htail⟩ := List.prefix_of_prefix_length_le hprefix (List.prefix_append l more)
    (by omega)
  have hcontra := hfound tail
  rw [← htail, List.append_assoc] at hnone
  exact absurd (hnone.symm.trans hcontra) nofun

theorem Patient.step (h : Patient hash startTime s l)
    (hturn : s.turn hash startTime l = .took s' l') : Patient hash startTime s' l' :=
  fun s₂ l₂ hvisits => h s₂ l₂ (.step hturn hvisits)

theorem Patient.of_length (h : Inv hash s) (hlen : l.length ≤ 1024) :
    Patient hash startTime s l :=
  fun _ _ hvisits _ => .inr (Nat.le_trans (consumes.inv_of_visits h hvisits).2 hlen)

theorem Patient.not_overlong (h : Patient hash startTime s (l ++ more)) (hwaits : s.Waits l) :
    ¬ s.Overlong l := by
  rintro ⟨hstate, hlong⟩
  rcases hwaits with rfl | ⟨-, hnone⟩
  · exact absurd hlong (Nat.not_lt_zero _)
  rcases h s (l ++ more) (.refl _ _) hstate with ⟨n, hline, hn⟩ | hlen
  · have hfound := length_le_of_line hline hnone
    omega
  · rw [List.length_append] at hlen
    omega

/-- After some of the input, the session is patient with the rest. -/
theorem Patient.of_settle (hs : Inv hash s) (h : Patient hash startTime s (l ++ more))
    (hsettle : Turn.settle (turn hash startTime) n s l = some (s', l')) :
    Patient hash startTime s' (l' ++ more) := by
  refine Turn.settle_induction (P := fun s l => Inv hash s → Patient hash startTime s (l ++ more) →
    Patient hash startTime s' (l' ++ more)) hsettle (fun _ _ h => h) ?_ hs h
  intro s l s₁ l₁ k hturn hsettle₁ ih hs h
  have hgoes : s.turn hash startTime l ≠ .wait := by
    rw [hturn]
    exact Turn.took_ne_wait
  refine ih (of_took hs hturn).1 ?_
  rcases turn_append hs hgoes more with hbehind | ⟨s₂, htook, hstate, hall⟩
  · rw [hturn] at hbehind
    exact h.step hbehind
  · obtain ⟨rfl, rfl⟩ := Turn.took.inj (htook.symm.trans hturn)
    -- the turn that takes all of `l` has no place in the run over the whole
    intro s₃ l₃ hvisits hstate₃
    cases hvisits with
    | refl => exact absurd hstate₃ hstate
    | step hnext hrest =>
      by_cases hmore : more = []
      · subst hmore
        exact absurd (hnext.symm.trans (turn_nil s₂)) nofun
      · exact h _ _ (.step ((hall hmore).2.trans hnext) hrest) hstate₃

theorem onMessage_of_settle
    (hsettle : Turn.settle (turn hash startTime) (l.length + 1) s l = some (s', l'))
    (hover : ¬ s'.Overlong l') : s.onMessage hash startTime l = some (s', l') := by
  rw [onMessage, hsettle, Option.bind_eq_bind, Option.bind_some]
  exact congrArg some (Prod.ext (if_neg hover) rfl)

theorem onMessage_append (hs : Inv hash s) (h : Patient hash startTime s (l ++ more)) :
    s.onMessage hash startTime (l ++ more) =
      (s.onMessage hash startTime l).bind fun p => p.1.onMessage hash startTime (p.2 ++ more) := by
  have hsplit : Turn.settle (turn hash startTime) _ s (l ++ more) = _ :=
    Turn.settle_append consumes hs l more
  cases hsettle : Turn.settle (turn hash startTime) (l.length + 1) s l with
  | none =>
    rw [hsettle, Option.bind_none] at hsplit
    rw [onMessage_eq_none_iff.mpr hsettle, onMessage_eq_none_iff.mpr hsplit, Option.bind_none]
  | some p =>
    obtain ⟨s₁, l₁⟩ := p
    have hwaits := turn_eq_wait_iff.mp (Turn.wait_of_settle hsettle)
    have hover := (h.of_settle hs hsettle).not_overlong hwaits
    rw [hsettle, Option.bind_some] at hsplit
    rw [onMessage_of_settle hsettle hover, Option.bind_some, onMessage, onMessage, hsplit]

theorem onMessages_of_patient (hs : Inv hash s) (hwaits : s.Waits buf) (segments : List Bytes)
    (h : Patient hash startTime s (buf ++ segments.flatten)) :
    onMessages hash startTime segments (s, buf) =
      s.onMessage hash startTime (buf ++ segments.flatten) := by
  induction segments generalizing s buf with
  | nil =>
    have hover := h.not_overlong hwaits
    have hsettle : Turn.settle (turn hash startTime) (buf.length + 1) s buf = some (s, buf) :=
      Turn.settle_of_wait (turn_eq_wait_iff.mpr hwaits) _
    rw [onMessages, List.flatten_nil, List.append_nil, onMessage_of_settle hsettle hover]
  | cons segment segments ih =>
    rw [List.flatten_cons, ← List.append_assoc] at h ⊢
    rw [onMessages, onMessage_append hs h]
    cases hmsg : s.onMessage hash startTime (buf ++ segment) with
    | none => rfl
    | some p =>
      obtain ⟨s₁, buf₁⟩ := p
      obtain ⟨s₂, hsettle, rfl⟩ := onMessage_eq_some hmsg
      have hpatient := h.of_settle hs hsettle
      have hwaits₂ := turn_eq_wait_iff.mp (Turn.wait_of_settle hsettle)
      have hover := hpatient.not_overlong hwaits₂
      rw [if_neg hover, Option.bind_eq_bind, Option.bind_some, Option.bind_some]
      exact ih (consumes.inv_of_settle hs hsettle) hwaits₂ hpatient

/-- However the input of a session is cut into segments, it comes to the same. -/
theorem onMessages_eq_onMessage (h : Reach hash startTime s buf) (segments : List Bytes)
    (hpatient : Patient hash startTime s (buf ++ segments.flatten)) :
    onMessages hash startTime segments (s, buf) =
      s.onMessage hash startTime (buf ++ segments.flatten) :=
  onMessages_of_patient h.inv.1 h.inv.2 segments hpatient

theorem onMessages_eq_onMessage_sample :
    onMessages (fun _ => 0) 0 [chars "version\r", chars "\n"] (new .new, []) =
      (new .new).onMessage (fun _ => 0) 0 ([] ++ [chars "version\r", chars "\n"].flatten) :=
  have hreach : Reach (fun _ => 0) 0 (new .new) [] := .new ⟨_, MemcacheServer.refines_new _⟩
  onMessages_eq_onMessage hreach _ (.of_length hreach.inv.1 (by decide))

end Cnet.Examples.Memcached.Session
