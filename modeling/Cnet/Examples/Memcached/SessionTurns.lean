import Cnet.Examples.Memcached.SessionSteps

/-!
# A session consumes its input

A turn works on a request line, or on as much of a value as there is. It aborts on certain
request lines, on a line whose length as an `int` is negative, and if a value put together
has no room; nothing else makes a session fail.
-/

namespace Cnet.Examples.Memcached.Session

open Cnet.Support Cnet.Base
open Cnet.Net (Bytes)
open MemcacheServer (Refines)

variable {hash : Bytes → Nat} {startTime : Int} {s : Session} {m : Contents} {buf : Bytes} {n : Nat}

/-! ## One turn in each state -/

theorem findCRLF_some (h : findCRLF buf = some n) :
    n + 2 ≤ buf.length ∧ Ends (buf.drop n) ∧ ∀ more, findCRLF (buf ++ more) = some n := by
  obtain ⟨front, rest, rfl, rfl, hmore⟩ := findPair_some 13 10 h
  refine ⟨?_, fun b hb => ?_, fun more => ?_⟩
  · rw [List.length_append, List.length_cons, List.length_cons]
    omega
  · rw [List.drop_left] at hb
    obtain rfl := Option.some.inj hb
    decide
  · rw [List.append_assoc]
    exact hmore (rest ++ more)

/-- The length of a line as an `int` is no larger than it is. -/
theorem toNat_castInt_le (n : Nat) : (castInt n).toNat ≤ n := by
  have hbmod : castInt n % 4294967296 = (n : Int) % 4294967296 := Int.bmod_emod
  obtain ⟨-, hmax⟩ := fitsInt_castInt n
  omega

/-- The end of the line is behind its characters, even if an `int` has no room for its length. -/
theorem stops_line (h : findCRLF buf = some n) : Stops (buf.drop (castInt n).toNat) := by
  obtain ⟨front, rest, rfl, rfl, -⟩ := findPair_some 13 10 h
  refine ⟨13, ?_, by decide⟩
  rw [List.drop_append_of_le_length (toNat_castInt_le _)]
  exact List.mem_append_right _ List.mem_cons_self

theorem turn_line (hstate : s.state_ = .kNewCommand) (hline : findCRLF buf = some n) :
    s.turn hash startTime buf = if 0 ≤ castInt n then .ofOption
      ((s.processRequest hash startTime (buf.take (castInt n).toNat)
        (buf.drop (castInt n).toNat)).map fun p => (p.2.finishRequest p.1, buf.drop (n + 2)))
      else .abort := by
  have hne : buf ≠ [] := by
    rintro rfl
    exact absurd hline nofun
  rw [turn, if_neg hne, hstate]
  simp only [hline]
  by_cases hlen : 0 ≤ castInt n
  · rw [if_pos hlen, assert_pos hlen]
    cases s.processRequest hash startTime (buf.take (castInt n).toNat)
      (buf.drop (castInt n).toNat) <;> rfl
  · rw [if_neg hlen, assert, if_neg hlen]
    rfl

theorem turn_no_line (hstate : s.state_ = .kNewCommand) (hline : findCRLF buf = none) :
    s.turn hash startTime buf = .wait := by
  rw [turn, hstate]
  simp only [hline, ite_self]

theorem turn_receive (hstate : s.state_ = .kReceiveValue) (hne : buf ≠ []) :
    s.turn hash startTime buf = .ofOption (s.receiveValue hash buf) := by
  rw [turn, if_neg hne, hstate]

theorem turn_discard (hstate : s.state_ = .kDiscardValue) (hne : buf ≠ [])
    (hitem : s.currItem_ = none) :
    s.turn hash startTime buf =
      if buf.length < s.bytesToDiscard_
      then .took { s with bytesToDiscard_ := s.bytesToDiscard_ - buf.length } []
      else .took { s.resetRequest with state_ := .kNewCommand } (buf.drop s.bytesToDiscard_) := by
  rw [turn, if_neg hne, hstate]
  dsimp only
  rw [discardValue, assert_pos hitem]
  simp only [Option.bind_eq_bind, Option.bind_some, apply_ite Turn.ofOption, hstate]
  rfl

/-! ## What a turn does -/

/-- The value of an item, with what comes first in the input. -/
def completed (item : Item) (buf : Bytes) : Bytes := item.value ++ buf.take item.neededBytes

/-- The update that the session is about to make. -/
def pending (s : Session) (item : Item) (buf : Bytes) : Command :=
  .store s.policy_ item.key
    ⟨item.flags_, item.rel_exptime_, (completed item buf).take (item.valuelen_ - 2)⟩ item.cas_

/-- The value is complete, and the store cannot take it. -/
def Overflows (s : Session) (m : Contents) (item : Item) (buf : Bytes) : Prop :=
  item.neededBytes ≤ buf.length ∧ (completed item buf).drop (item.valuelen_ - 2) = crlf ∧
    ¬ (s.pending item buf).Fits (m.entry item.key)

/-- The next turn makes the process abort. -/
def Fails (s : Session) (m : Contents) (buf : Bytes) : Prop :=
  match s.state_ with
  | .kNewCommand => ∃ n, findCRLF buf = some n ∧ (castInt n < 0 ∨
      s.BadRequest m (buf.take (castInt n).toNat) (buf.drop (castInt n).toNat))
  | .kReceiveValue => ∃ item, s.currItem_ = some item ∧ s.Overflows m item buf
  | .kDiscardValue => False

/-- A turn goes well and takes something, if it does not wait. -/
def Works (hash : Bytes → Nat) (startTime : Int) (s : Session) (buf : Bytes) : Prop :=
  s.turn hash startTime buf = .wait ∨ ∃ s' rest, s.turn hash startTime buf = .took s' rest ∧
    Inv hash s' ∧ rest.length < buf.length

theorem turn_nil (s : Session) : s.turn hash startTime [] = .wait := if_pos rfl

/-- The value is complete. -/
theorem storeValue_cases (hm : Refines hash s.owner_ m) {item item' : Item}
    (hkey : item.keylen_ ≤ item.data_.length) (hle : item.neededBytes ≤ buf.length)
    (happend : item.append (buf.take item.neededBytes) = some item') :
    s.storeValue hash item' = none ∧ s.Overflows m item buf ∨
    ¬ s.Overflows m item buf ∧ ∃ s', s.storeValue hash item' = some s' ∧
      ∃ m', Refines hash s'.owner_ m' := by
  have hlen := List.length_take_of_le hle
  have hreceives := Item.receives_self hkey
  have hneeded := hreceives.neededBytes_eq
  have hroom := hreceives.length_le
  obtain ⟨_, hitem', hreceives'⟩ := hreceives.append (buf.take item.neededBytes) (by omega)
  obtain rfl := Option.some.inj (hitem'.symm.trans happend)
  have hall : (completed item buf).length = item.valuelen_ := by
    rw [completed, List.length_append]
    omega
  have hends := hreceives'.endsWithCRLF_eq hall
  by_cases hcrlf : (completed item buf).drop (item.valuelen_ - 2) = crlf
  · have hholds := hreceives'.holds hall (hends.trans (decide_eq_true hcrlf))
    obtain ⟨hgood, hbad⟩ := storeValue_holds hm hholds
    by_cases hfits : (s.pending item buf).Fits (m.entry item.key)
    · obtain ⟨owner', hstore, href⟩ := hgood hfits
      exact .inr ⟨fun hover => hover.2.2 hfits, _, hstore, _, by rwa [reply_owner]⟩
    · exact .inl ⟨hbad hfits, hle, hcrlf, hfits⟩
  · refine .inr ⟨fun hover => hcrlf hover.2.1, s.reply (chars "CLIENT_ERROR bad data chunk\r\n"),
      ?_, m, ?_⟩
    · rw [storeValue, hends]
      exact if_neg (decide_eq_true_iff.not.mpr hcrlf)
    · rwa [reply_owner]

section

variable (h : Inv hash s) (hm : Refines hash s.owner_ m) (buf : Bytes)
include h hm

theorem turn_cases_newCommand (hstate : s.state_ = .kNewCommand) :
    s.turn hash startTime buf = .abort ∧ s.Fails m buf ∨
    ¬ s.Fails m buf ∧ Works hash startTime s buf := by
  cases hline : findCRLF buf with
  | none =>
    refine .inr ⟨?_, .inl (turn_no_line hstate hline)⟩
    rw [Fails, hstate]
    exact fun ⟨n, hn, _⟩ => absurd (hline.symm.trans hn) nofun
  | some n =>
    obtain ⟨hlen, -⟩ := findCRLF_some hline
    set request := buf.take (castInt n).toNat with hrequest
    set beyond := buf.drop (castInt n).toNat with hbeyond
    have hfails : s.Fails m buf ↔ castInt n < 0 ∨ s.BadRequest m request beyond := by
      rw [Fails, hstate]
      simp only [hline, Option.some.injEq, exists_eq_left', ← hrequest, ← hbeyond]
    have hturn : s.turn hash startTime buf = _ := turn_line hstate hline
    rw [← hrequest, ← hbeyond] at hturn
    rw [hfails]
    rcases lt_or_ge (castInt n) 0 with hneg | hpos
    · rw [if_neg (not_le.mpr hneg)] at hturn
      exact .inl ⟨hturn, .inl hneg⟩
    rw [if_pos hpos] at hturn
    rw [or_iff_right (not_lt.mpr hpos)]
    have hcases : s.processRequest hash startTime request beyond = none ∧ _ ∨ _ :=
      processRequest_cases h hm hstate request beyond
    rcases hcases with ⟨hnone, hbad⟩ | ⟨hgood, finished, s', hsome, hinv⟩
    · rw [hnone] at hturn
      exact .inl ⟨hturn, hbad⟩
    · rw [hsome] at hturn
      refine .inr ⟨hgood, .inr ⟨_, _, hturn, hinv, ?_⟩⟩
      rw [List.length_drop]
      omega

theorem turn_cases_receive (hstate : s.state_ = .kReceiveValue) (hne : buf ≠ []) :
    s.turn hash startTime buf = .abort ∧ s.Fails m buf ∨
    ¬ s.Fails m buf ∧ Works hash startTime s buf := by
  have hstage := h.stage
  rw [Stage, hstate] at hstage
  obtain ⟨item, hitem, hkey, hneeded⟩ := hstage
  have hfails : s.Fails m buf ↔ s.Overflows m item buf := by
    rw [Fails, hstate]
    simp only [hitem, Option.some.injEq, exists_eq_left']
  have hpos := List.length_pos_of_ne_nil hne
  rw [hfails, Works, turn_receive hstate hne]
  rcases lt_or_ge buf.length item.neededBytes with hlt | hle
  · obtain ⟨item', happend, hdata, hkeylen, -⟩ := Item.append_eq item (Nat.le_of_lt hlt)
    have hneeded' := Item.neededBytes_of_append happend
    rw [receiveValue_part hitem happend hlt]
    refine .inr ⟨fun hover => absurd hover.1 (Nat.not_le.mpr hlt), .inr ⟨_, _, rfl, ⟨h.store, ?_⟩,
      hpos⟩⟩
    rw [Stage, hstate]
    refine ⟨item', rfl, ?_, by omega⟩
    rw [hkeylen, hdata, List.length_append]
    omega
  · have hroom : (buf.take item.neededBytes).length ≤ item.neededBytes := List.length_take_le _ _
    obtain ⟨item', happend, -⟩ := Item.append_eq item hroom
    rw [receiveValue_whole hitem happend hle]
    rcases storeValue_cases (s := { s with currItem_ := some item' }) hm hkey hle happend with
      ⟨hnone, hover⟩ | ⟨hfits, s', hsome, hstore⟩
    · rw [hnone]
      exact .inl ⟨rfl, hover⟩
    · rw [hsome]
      refine .inr ⟨hfits, .inr ⟨_, _, rfl, ⟨hstore, rfl, rfl, rfl, rfl, rfl⟩, ?_⟩⟩
      rw [List.length_drop]
      omega

omit hm in
theorem turn_discard_works (hstate : s.state_ = .kDiscardValue) (hne : buf ≠ []) :
    Works hash startTime s buf := by
  have hstage := h.stage
  rw [Stage, hstate] at hstage
  obtain ⟨hitem, hpos⟩ := hstage
  have hlen := List.length_pos_of_ne_nil hne
  rw [Works, turn_discard hstate hne hitem]
  by_cases hlt : buf.length < s.bytesToDiscard_
  · rw [if_pos hlt]
    refine .inr ⟨_, _, rfl, ⟨h.store, ?_⟩, hlen⟩
    rw [Stage, hstate]
    exact ⟨hitem, Nat.sub_pos_of_lt hlt⟩
  · rw [if_neg hlt]
    refine .inr ⟨_, _, rfl, ⟨h.store, rfl, rfl, rfl, rfl, rfl⟩, ?_⟩
    rw [List.length_drop]
    omega

/-- A turn fails where `Fails` says so, and works otherwise. -/
theorem turn_cases :
    s.turn hash startTime buf = .abort ∧ s.Fails m buf ∨
    ¬ s.Fails m buf ∧ Works hash startTime s buf := by
  cases hstate : s.state_ with
  | kNewCommand => exact turn_cases_newCommand h hm buf hstate
  | kReceiveValue =>
    by_cases hne : buf = []
    · subst hne
      refine .inr ⟨?_, .inl (turn_nil s)⟩
      have hstage := h.stage
      rw [Stage, hstate] at hstage
      obtain ⟨item, hitem, -, hneeded⟩ := hstage
      rw [Fails, hstate]
      rintro ⟨item', hitem', hover⟩
      obtain rfl := Option.some.inj (hitem.symm.trans hitem')
      exact absurd hover.1 (Nat.not_le.mpr hneeded)
    · exact turn_cases_receive h hm buf hstate hne
  | kDiscardValue =>
    have hfails : ¬ s.Fails m buf := by
      rw [Fails, hstate]
      exact not_false
    by_cases hne : buf = []
    · subst hne
      exact .inr ⟨hfails, .inl (turn_nil s)⟩
    · exact .inr ⟨hfails, turn_discard_works h buf hstate hne⟩

end

/-! ## More input -/

theorem turn_append_line (hstate : s.state_ = .kNewCommand) {l : Bytes} {n : Nat}
    (hline : findCRLF l = some n) (more : Bytes) :
    s.turn hash startTime (l ++ more) = (s.turn hash startTime l).behind more := by
  obtain ⟨hlen, -, hmore⟩ := findCRLF_some hline
  have hle := toNat_castInt_le n
  rw [turn_line hstate hline, turn_line hstate (hmore more),
    List.take_append_of_le_length (by omega), List.drop_append_of_le_length hlen,
    List.drop_append_of_le_length (by omega),
    processRequest_append hash startTime _ (stops_line hline)]
  split
  · cases s.processRequest hash startTime (l.take (castInt n).toNat) (l.drop (castInt n).toNat) <;>
      rfl
  · rfl

/-- With more input behind it a turn does the same, unless it is one that takes all there is
of a value. -/
theorem turn_append (h : Inv hash s) {l : Bytes} (hturn : s.turn hash startTime l ≠ .wait)
    (more : Bytes) :
    s.turn hash startTime (l ++ more) = (s.turn hash startTime l).behind more ∨
    ∃ s', s.turn hash startTime l = .took s' [] ∧ s'.state_ ≠ .kNewCommand ∧ (more ≠ [] →
      s'.turn hash startTime more ≠ .wait ∧
        s.turn hash startTime (l ++ more) = s'.turn hash startTime more) := by
  have hne : l ≠ [] := by
    rintro rfl
    exact hturn (turn_nil s)
  have hne' : l ++ more ≠ [] := List.append_ne_nil_of_left_ne_nil hne more
  have hstage := h.stage
  cases hstate : s.state_ with
  | kNewCommand =>
    cases hline : findCRLF l with
    | none => exact absurd (turn_no_line hstate hline) hturn
    | some n => exact .inl (turn_append_line hstate hline more)
  | kReceiveValue =>
    rw [Stage, hstate] at hstage
    obtain ⟨item, hitem, -⟩ := hstage
    rw [turn_receive hstate hne, turn_receive hstate hne']
    rcases lt_or_ge l.length item.neededBytes with hlt | hle
    · obtain ⟨item', happend, -⟩ := Item.append_eq item (Nat.le_of_lt hlt)
      rw [receiveValue_part hitem happend hlt]
      refine .inr ⟨_, rfl, by rw [hstate]; decide, fun hmore => ?_⟩
      rw [turn_receive (s := { s with currItem_ := some item' }) hstate hmore,
        receiveValue_append hitem happend hlt]
      exact ⟨Turn.ofOption_ne_wait _, rfl⟩
    · have hroom : (l.take item.neededBytes).length ≤ item.neededBytes := List.length_take_le _ _
      obtain ⟨item', happend, -⟩ := Item.append_eq item hroom
      have happend' : item.append ((l ++ more).take item.neededBytes) = some item' := by
        rwa [List.take_append_of_le_length hle]
      refine .inl ?_
      rw [receiveValue_whole hitem happend hle, receiveValue_whole hitem happend'
        (by rw [List.length_append]; omega), List.drop_append_of_le_length hle]
      cases storeValue hash item' { s with currItem_ := some item' } <;> rfl
  | kDiscardValue =>
    rw [Stage, hstate] at hstage
    obtain ⟨hitem, -⟩ := hstage
    have hlen : (l ++ more).length = l.length + more.length := List.length_append
    rw [turn_discard hstate hne hitem, turn_discard hstate hne' hitem]
    by_cases hlt : l.length < s.bytesToDiscard_
    · rw [if_pos hlt]
      refine .inr ⟨_, rfl, by rw [hstate]; decide, fun hmore => ?_⟩
      rw [turn_discard (s := { s with bytesToDiscard_ := s.bytesToDiscard_ - l.length })
        hstate hmore hitem]
      by_cases hlt' : more.length < s.bytesToDiscard_ - l.length
      · rw [if_pos hlt', if_pos (by omega), hlen, Nat.sub_add_eq]
        exact ⟨Turn.took_ne_wait, rfl⟩
      · have hdrop : (l ++ more).drop s.bytesToDiscard_ =
            more.drop (s.bytesToDiscard_ - l.length) := by
          rw [List.drop_append, List.drop_eq_nil_of_le (Nat.le_of_lt hlt), List.nil_append]
        rw [if_neg hlt', if_neg (by omega), hdrop]
        exact ⟨Turn.took_ne_wait, rfl⟩
    · refine .inl ?_
      rw [if_neg hlt, if_neg (by omega), List.drop_append_of_le_length (Nat.le_of_not_lt hlt)]
      rfl

theorem of_took (h : Inv hash s) {s' : Session} {l rest : Bytes}
    (hturn : s.turn hash startTime l = .took s' rest) : Inv hash s' ∧ rest.length < l.length := by
  obtain ⟨m, hm⟩ := h.store
  have hcases : s.turn hash startTime l = .abort ∧ _ ∨ _ := turn_cases h hm l
  rcases hcases with ⟨habort, -⟩ | ⟨-, hwait | ⟨s₁, rest₁, htook, hworks⟩⟩
  · exact absurd (habort.symm.trans hturn) nofun
  · exact absurd (hwait.symm.trans hturn) nofun
  · obtain ⟨rfl, rfl⟩ := Turn.took.inj (htook.symm.trans hturn)
    exact hworks

theorem consumes : Turn.Consumes (turn hash startTime) (Inv hash) where
  nil := turn_nil
  keeps h hturn := (of_took h hturn).1
  takes h hturn := (of_took h hturn).2
  more := by
    intro s l s' rest more hmore h hturn
    have hgoes : s.turn hash startTime l ≠ .wait := by
      rw [hturn]
      exact Turn.took_ne_wait
    rcases turn_append h hgoes more with hbehind | ⟨s₁, htook, -, hall⟩
    · rw [hturn] at hbehind
      exact .inl hbehind
    · obtain ⟨rfl, rfl⟩ := Turn.took.inj (htook.symm.trans hturn)
      exact .inr ⟨rfl, hall hmore⟩
  fails := by
    intro s l more h hturn
    have hgoes : s.turn hash startTime l ≠ .wait := by
      rw [hturn]
      exact Turn.abort_ne_wait
    rcases turn_append h hgoes more with hbehind | ⟨s₁, htook, -⟩
    · rw [hturn] at hbehind
      exact hbehind
    · exact absurd (htook.symm.trans hturn) nofun

end Cnet.Examples.Memcached.Session
