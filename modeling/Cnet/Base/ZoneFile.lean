import Cnet.Support.Reading
import Cnet.Base.LocalTime

/-!
# Loading a time zone

`readTimeZoneFile` fills the table as it reads, keeps what a failed reading leaves, and
says `true` in any case. So a table is safe to use exactly when the file begins with a
well formed zone.

Behaviour that the language does not define ends a reading as an exception does, and is
told apart from it. `stack` is the room for the array of `readBytes`; the heap is not
bounded.
-/

namespace Cnet.Base

open Cnet.Support
open Cnet.Support.Reading (Ok Reads ok_pure ok_bind times)

inductive Failure where
  | logic_error (what : String)
  | undefined
deriving DecidableEq, Repr

/-- A reading of `File`, which may change the table. -/
abbrev FileReading (α : Type) := Reading Failure Data α

/-- An `int32_t` in a file, the first byte the most significant. -/
structure Word where
  b0 : UInt8
  b1 : UInt8
  b2 : UInt8
  b3 : UInt8
deriving DecidableEq

namespace Word

def bytes (w : Word) : List UInt8 := [w.b0, w.b1, w.b2, w.b3]

/-- `be32toh`. -/
def value (w : Word) : Int :=
  (w.b0.toBitVec ++ w.b1.toBitVec ++ w.b2.toBitVec ++ w.b3.toBitVec).toInt

end Word

namespace File

def readBytes (stack : Nat) (n : Int) : FileReading (List UInt8) := fun s =>
  if n < 0 ∨ (stack : Int) < n then (.error .undefined, s)
  else if (s.rest.length : Int) < n then
    (.error (.logic_error "no enough data"), { s with rest := [] })
  else (.ok (s.rest.take n.toNat), { s with rest := s.rest.drop n.toNat })

def readInt32 : FileReading Int := fun s =>
  match s.rest with
  | b0 :: b1 :: b2 :: b3 :: rest => (.ok (Word.mk b0 b1 b2 b3).value, { s with rest := rest })
  | _ => (.error (.logic_error "bad int32_t data"), { s with rest := [] })

def readUInt8 : FileReading UInt8 := fun s =>
  match s.rest with
  | b :: rest => (.ok b, { s with rest := rest })
  | [] => (.error (.logic_error "bad uint8_t data"), s)

end File

open File

/-- Throws unless `p`. -/
def require (p : Prop) [Decidable p] (what : String) : FileReading Unit :=
  if p then pure () else throw (.logic_error what)

/-- `trans.reserve(n)` for an `int`: a negative number is more than any vector holds. -/
def reserve (n : Int) : FileReading Unit := require (0 ≤ n) "vector::reserve"

/-- One local time type, put into the table. -/
def readLocaltime : FileReading Unit := do
  let gmtoff ← readInt32
  let isdst ← readUInt8
  let abbrind ← readUInt8
  modify fun s => { s with data := { s.data with
    localtimes := s.data.localtimes ++ [⟨gmtoff, isdst ≠ 0, abbrind.toNat⟩] } }

/-- One transition, put into the table. -/
def pushTransition (time : Int) (localIdx : Nat) : FileReading Unit := fun s =>
  match s.data.localtimes[localIdx]? with
  | some l => (.ok (), { s with data := { s.data with
      transitiions := s.data.transitiions ++ [⟨time, time + l.gmtOffset, localIdx⟩] } })
  | none => (.error .undefined, s)

def pushTransitions : List (Int × UInt8) → FileReading Unit
  | [] => pure ()
  | (time, localIdx) :: rest => do
    pushTransition time localIdx.toNat
    pushTransitions rest

/-- The bytes of `"TZif"`. -/
def magic : List UInt8 := [84, 90, 105, 102]

/-- The body of the `try` block. -/
def readZone (stack : Nat) : FileReading Unit := do
  let head ← readBytes stack 4
  require (head = magic) "bad head"
  let _version ← readBytes stack 1
  let _ ← readBytes stack 15
  let _isgmtcnt ← readInt32
  let _isstdcnt ← readInt32
  let _leapcnt ← readInt32
  let timecnt ← readInt32
  let typecnt ← readInt32
  let charcnt ← readInt32
  reserve timecnt
  let trans ← times readInt32 timecnt.toNat
  let localtimes ← times readUInt8 timecnt.toNat
  let _ ← times readLocaltime typecnt.toNat
  pushTransitions (trans.zip localtimes)
  let abbreviation ← readBytes stack charcnt
  modify fun s => { s with data := { s.data with abbreviation := abbreviation } }

/-- What it returns, and what it leaves in `data`. No result is behaviour not defined. -/
def readTimeZoneFile (stack : Nat) (zonefile : Option (List UInt8)) : Option (Bool × Data) :=
  match zonefile with
  | none => some (true, {})
  | some bytes =>
    match (readZone stack).outcome ⟨bytes, {}⟩ with
    | (.error .undefined, _) => none
    | (_, s) => some (true, s.data)

/-- `TimeZone(const char*)`, on the content of the file; `none` cannot be opened. -/
def TimeZone.ofFile (stack : Nat) (zonefile : Option (List UInt8)) : Option TimeZone := do
  let (loaded, data) ← readTimeZoneFile stack zonefile
  some ⟨if loaded then some data else none⟩

/-! ## The format -/

/-- A local time type in a file. -/
structure ZoneType where
  gmtoff : Word
  isdst : UInt8
  abbrind : UInt8

namespace ZoneType

def encode (x : ZoneType) : List UInt8 := x.gmtoff.bytes ++ [x.isdst, x.abbrind]

def localtime (x : ZoneType) : Localtime := ⟨x.gmtoff.value, x.isdst ≠ 0, x.abbrind.toNat⟩

end ZoneType

/-- A well formed zone: the counts are those of what follows, there is a type, and the
indices are in range. -/
structure ZoneFile where
  version : UInt8
  reserved : List UInt8
  reserved_length : reserved.length = 15
  isgmtcnt : Word
  isstdcnt : Word
  leapcnt : Word
  timecnt : Word
  typecnt : Word
  charcnt : Word
  times : List Word
  indices : List UInt8
  types : List ZoneType
  abbreviation : List UInt8
  timecnt_eq : timecnt.value = times.length
  indices_length : indices.length = times.length
  typecnt_eq : typecnt.value = types.length
  charcnt_eq : charcnt.value = abbreviation.length
  types_ne : types ≠ []
  indices_lt : ∀ i ∈ indices, i.toNat < types.length
  abbrind_lt : ∀ x ∈ types, x.abbrind.toNat < abbreviation.length

namespace ZoneFile

def encode (z : ZoneFile) : List UInt8 :=
  magic ++ ([z.version] ++ (z.reserved ++ (z.isgmtcnt.bytes ++ (z.isstdcnt.bytes ++
    (z.leapcnt.bytes ++ (z.timecnt.bytes ++ (z.typecnt.bytes ++ (z.charcnt.bytes ++
      (z.times.flatMap Word.bytes ++ (z.indices ++ (z.types.flatMap ZoneType.encode ++
        z.abbreviation)))))))))))

/-- The arrays that reading the zone takes fit on the stack. -/
def FitsStack (z : ZoneFile) (stack : Nat) : Prop := 15 ≤ stack ∧ z.abbreviation.length ≤ stack

end ZoneFile

/-! ## What succeeds -/

namespace File

theorem ok_bind_readBytes {β : Type} {stack : Nat} {n : Int} {f : List UInt8 → FileReading β}
    {rest : List UInt8} {data : Data} {b : β} {s' : Source Data} :
    Ok (readBytes stack n >>= f) ⟨rest, data⟩ b s' ↔
      ∃ bytes tail, n ≤ stack ∧ n = bytes.length ∧ rest = bytes ++ tail ∧
        Ok (f bytes) ⟨tail, data⟩ b s' := by
  rw [ok_bind]
  constructor
  · rintro ⟨bytes, s₁, h, hf⟩
    change readBytes stack n ⟨rest, data⟩ = _ at h
    rw [readBytes] at h
    dsimp only at h
    split_ifs at h with hbad hshort
    · cases h
    · cases h
    · cases h
      refine ⟨_, _, by omega, ?_, (List.take_append_drop n.toNat rest).symm, hf⟩
      rw [List.length_take]
      omega
  · rintro ⟨bytes, tail, hroom, rfl, rfl, hf⟩
    refine ⟨bytes, ⟨tail, data⟩, ?_, hf⟩
    show readBytes stack bytes.length ⟨bytes ++ tail, data⟩ = _
    rw [readBytes, if_neg (by omega), if_neg (by rw [List.length_append]; omega),
      Int.toNat_natCast, List.take_left, List.drop_left]

theorem reads_readInt32 : Reads readInt32 Word.bytes Word.value fun data _ => data := by
  rintro ⟨rest, data⟩ a ⟨rest', data'⟩
  constructor
  · intro h
    change readInt32 ⟨rest, data⟩ = _ at h
    rw [readInt32] at h
    dsimp only at h
    split at h
    · cases h
      exact ⟨⟨_, _, _, _⟩, rfl, rfl, rfl⟩
    · cases h
  · rintro ⟨w, hrest, rfl, hdata⟩
    dsimp only at hrest hdata
    subst hrest hdata
    rfl

theorem reads_readUInt8 :
    Reads readUInt8 (fun b => [b]) (fun b => b) fun data (_ : UInt8) => data := by
  rintro ⟨rest, data⟩ a ⟨rest', data'⟩
  constructor
  · intro h
    cases rest with
    | nil => cases h
    | cons b rest =>
      cases h
      exact ⟨a, rfl, rfl, rfl⟩
  · rintro ⟨b, hrest, rfl, hdata⟩
    dsimp only at hrest hdata
    subst hrest hdata
    rfl

end File

theorem reads_readLocaltime : Reads readLocaltime ZoneType.encode (fun _ => ())
    fun data x => { data with localtimes := data.localtimes ++ [x.localtime] } := by
  rintro ⟨rest, data⟩ a ⟨rest', data'⟩
  constructor
  · intro h
    obtain ⟨gmtoff, s₁, h₁, h⟩ := ok_bind.mp h
    obtain ⟨w, hw, rfl, hdata₁⟩ := (reads_readInt32 ..).mp h₁
    obtain ⟨isdst, s₂, h₂, h⟩ := ok_bind.mp h
    obtain ⟨b, hb, rfl, hdata₂⟩ := (reads_readUInt8 ..).mp h₂
    obtain ⟨abbrind, s₃, h₃, h⟩ := ok_bind.mp h
    obtain ⟨c, hc, rfl, hdata₃⟩ := (reads_readUInt8 ..).mp h₃
    cases h
    refine ⟨⟨w, isdst, abbrind⟩, ?_, rfl, ?_⟩
    · rw [hw, hb, hc]
      simp only [ZoneType.encode, List.append_assoc, List.cons_append, List.nil_append]
    · dsimp only
      rw [hdata₃, hdata₂, hdata₁]
      rfl
  · rintro ⟨x, hrest, rfl, hdata⟩
    dsimp only at hrest hdata
    subst hrest hdata
    rfl

theorem foldl_localtimes (data : Data) (types : List ZoneType) :
    types.foldl (fun data x => { data with localtimes := data.localtimes ++ [x.localtime] }) data =
      { data with localtimes := data.localtimes ++ types.map ZoneType.localtime } := by
  induction types generalizing data with
  | nil => rw [List.map_nil, List.append_nil]; rfl
  | cons x types ih =>
    rw [List.foldl_cons, ih, List.map_cons]
    dsimp only
    rw [List.append_assoc, List.singleton_append]

theorem ok_bind_require {p : Prop} [Decidable p] {what : String} {β : Type}
    {f : Unit → FileReading β} {s s' : Source Data} {b : β} :
    Ok (require p what >>= f) s b s' ↔ p ∧ Ok (f ()) s b s' := by
  rw [require, ok_bind]
  constructor
  · rintro ⟨u, s₁, h, hf⟩
    split_ifs at h with hp
    · obtain ⟨-, rfl⟩ := ok_pure.mp h
      exact ⟨hp, hf⟩
    · cases h
  · rintro ⟨hp, hf⟩
    exact ⟨(), s, (if_pos hp).symm ▸ ok_pure.mpr ⟨rfl, rfl⟩, hf⟩

/-- The loop succeeds where the indices are in range, and puts no others into the table. -/
theorem ok_pushTransitions {xs : List (Int × UInt8)} {s s' : Source Data} {u : Unit}
    (h : Ok (pushTransitions xs) s u s') :
    (∀ x ∈ xs, x.2.toNat < s.data.localtimes.length) ∧ s'.rest = s.rest ∧
      s'.data.localtimes = s.data.localtimes ∧
      ∀ y ∈ s'.data.transitiions, y ∈ s.data.transitiions ∨
        y.localtimeIdx < s.data.localtimes.length := by
  induction xs generalizing s with
  | nil =>
    obtain ⟨-, rfl⟩ := ok_pure.mp h
    exact ⟨fun x hx => absurd hx List.not_mem_nil, rfl, rfl, fun y hy => .inl hy⟩
  | cons x xs ih =>
    obtain ⟨_, s₁, h₁, h⟩ := ok_bind.mp h
    change pushTransition x.1 x.2.toNat s = _ at h₁
    rw [pushTransition] at h₁
    split at h₁
    · rename_i l hl
      have hlt := (List.getElem?_eq_some_iff.mp hl).1
      cases h₁
      obtain ⟨hidx, hrest, hlocal, htrans⟩ := ih h
      refine ⟨List.forall_mem_cons.mpr ⟨hlt, hidx⟩, hrest, hlocal, fun y hy => ?_⟩
      rcases htrans y hy with hold | hnew
      · rcases List.mem_append.mp hold with hold | hnew
        · exact .inl hold
        · obtain rfl := List.mem_singleton.mp hnew
          exact .inr hlt
      · exact .inr hnew
    · cases h₁

theorem pushTransitions_ok {xs : List (Int × UInt8)} {s : Source Data}
    (h : ∀ x ∈ xs, x.2.toNat < s.data.localtimes.length) :
    ∃ s', Ok (pushTransitions xs) s () s' := by
  induction xs generalizing s with
  | nil => exact ⟨s, ok_pure.mpr ⟨rfl, rfl⟩⟩
  | cons x xs ih =>
    obtain ⟨hx, hxs⟩ := List.forall_mem_cons.mp h
    have hget := List.getElem?_eq_getElem hx
    obtain ⟨s', hs'⟩ := ih (s := { s with data := { s.data with
      transitiions := s.data.transitiions ++
        [⟨x.1, x.1 + s.data.localtimes[x.2.toNat].gmtOffset, x.2.toNat⟩] } }) hxs
    refine ⟨s', ok_bind.mpr ⟨(), _, ?_, hs'⟩⟩
    show pushTransition x.1 x.2.toNat s = _
    rw [pushTransition, hget]

/-! ## Safety -/

/-- The conversions find in the table all that they look for. -/
structure Data.Safe (data : Data) : Prop where
  localtimes_ne : data.localtimes ≠ []
  localtimeIdx_lt : ∀ x ∈ data.transitiions, x.localtimeIdx < data.localtimes.length
  arrbIdx_lt : ∀ l ∈ data.localtimes, l.arrbIdx < data.abbreviation.length

namespace Data.Safe

variable {data : Data} (h : data.Safe)
include h

theorem getElem?_localtimeIdx {x : Transition} (hx : x ∈ data.transitiions) :
    ∃ l ∈ data.localtimes, data.localtimes[x.localtimeIdx]? = some l :=
  ⟨_, List.getElem_mem _, List.getElem?_eq_getElem (h.localtimeIdx_lt x hx)⟩

theorem head?_localtimes : ∃ l ∈ data.localtimes, data.localtimes.head? = some l :=
  ⟨_, List.head_mem h.localtimes_ne, List.head?_eq_some_head h.localtimes_ne⟩

/-- Sorted or not, the search stays inside the table. -/
theorem findLocaltime_mem (sentry : Transition) (comp : Comp) :
    ∃ l ∈ data.localtimes, data.findLocaltime sentry comp = some l := by
  rw [findLocaltime]
  cases htr : data.transitiions with
  | nil => exact h.head?_localtimes
  | cons front rest =>
    dsimp only
    by_cases hbefore : comp.less sentry front = true
    · rw [if_pos hbefore]
      exact h.head?_localtimes
    · obtain ⟨k, hk, hle, -, hhere⟩ := lowerBound_spec data.transitiions fun x => comp.less x sentry
      rw [if_neg hbefore, ← htr, hk, Option.bind_eq_bind, Option.bind_some]
      cases hx : data.transitiions[k]? with
      | none =>
        have hne : data.transitiions ≠ [] := by rw [htr]; exact List.cons_ne_nil _ _
        dsimp only
        rw [List.getLast?_eq_some_getLast hne, Option.bind_eq_bind, Option.bind_some]
        exact h.getElem?_localtimeIdx (List.getLast_mem hne)
      | some x =>
        dsimp only
        by_cases hequal : comp.equal sentry x = true
        · rw [if_pos hequal]
          exact h.getElem?_localtimeIdx (List.mem_of_getElem? hx)
        · rw [if_neg hequal]
          have hne : k ≠ 0 := by
            rintro rfl
            obtain rfl : front = x := by rw [htr] at hx; exact Option.some.inj hx
            have hge := (comp.less_iff _ _).not.mp (Bool.not_eq_true _ ▸ hhere front hx)
            rw [comp.less_iff] at hbefore
            rw [comp.equal_iff] at hequal
            omega
          obtain ⟨y, hy⟩ : ∃ y, data.transitiions[k - 1]? = some y :=
            ⟨_, List.getElem?_eq_getElem (by omega)⟩
          rw [assert_pos hne, hy, Option.bind_eq_bind, Option.bind_some]
          exact h.getElem?_localtimeIdx (List.mem_of_getElem? hy)

theorem toLocalTime_isSome (t : Int) : (data.toLocalTime t).isSome := by
  obtain ⟨l, hl, hfind⟩ := h.findLocaltime_mem ⟨t, 0, 0⟩ ⟨true⟩
  rw [toLocalTime, hfind, Option.bind_eq_bind, Option.bind_some,
    assert_pos (Nat.le_of_lt (h.arrbIdx_lt l hl))]
  rfl

theorem fromLocalTime_isSome (tm : Tm) : (data.fromLocalTime tm).isSome := by
  obtain ⟨l, hl, hfind⟩ := h.findLocaltime_mem ⟨0, timegm tm, 0⟩ ⟨false⟩
  obtain ⟨tryTm, htry⟩ :=
    Option.isSome_iff_exists.mp (h.toLocalTime_isSome (timegm tm - l.gmtOffset))
  rw [fromLocalTime, hfind, Option.bind_eq_bind, Option.bind_some, htry]
  split
  · rw [Option.bind_eq_bind, Option.bind_some]
    split <;> rfl
  · rfl

end Data.Safe

/-- The content is read to its end, and `data` is the table. -/
def ReadsWhole (stack : Nat) (bytes : List UInt8) (data : Data) : Prop :=
  ∃ s' : Source Data, Ok (readZone stack) ⟨bytes, {}⟩ () s' ∧ s'.data = data

namespace ZoneFile

/-- What has been read whole and is safe was a well formed zone. -/
theorem of_readsWhole {stack : Nat} {bytes : List UInt8} {data : Data}
    (h : ReadsWhole stack bytes data) (hsafe : data.Safe) :
    ∃ z : ZoneFile, z.encode <+: bytes ∧ z.FitsStack stack := by
  obtain ⟨s', h, rfl⟩ := h
  simp only [readZone, reserve, ok_bind_readBytes, ok_bind_require, reads_readInt32.ok_bind,
    reads_readInt32.ok_bind_times, reads_readUInt8.ok_bind_times,
    reads_readLocaltime.ok_bind_times, foldl_localtimes, List.foldl_fixed, List.map_id',
    List.flatMap_singleton'] at h
  obtain ⟨head, _, -, -, rfl, rfl, version, _, -, hversion, rfl, reserved, _, hroom, hreserved,
    rfl, isgmtcnt, _, rfl, isstdcnt, _, rfl, leapcnt, _, rfl, timecnt, _, rfl, typecnt, _, rfl,
    charcnt, _, rfl, hnonneg, times, _, htimes, rfl, indices, _, hindices, rfl, types, tail, htypes,
    rfl, h⟩ := h
  obtain ⟨_, ⟨tail', data'⟩, hpush, h⟩ := ok_bind.mp h
  obtain ⟨hidx, htail, hlocal, -⟩ := ok_pushTransitions hpush
  obtain ⟨abbreviation, rest, hroom', hchar, hrest, h⟩ := ok_bind_readBytes.mp h
  cases h
  dsimp only at htail hlocal hrest hidx hsafe
  have hone : version.length = 1 := by exact_mod_cast hversion.symm
  obtain ⟨v, rfl⟩ := List.length_eq_one_iff.mp hone
  have htypesNe : types ≠ [] := by
    rintro rfl
    exact hsafe.localtimes_ne hlocal
  have htypesPos := List.length_pos_iff.mpr htypesNe
  have hfits : 15 ≤ stack ∧ abbreviation.length ≤ stack := by omega
  have hindicesLt : ∀ i ∈ indices, i.toNat < types.length := by
    intro i hi
    have hsnd : ((times.map Word.value).zip indices).map Prod.snd = indices :=
      List.map_snd_zip (by rw [List.length_map]; omega)
    obtain ⟨⟨w, i'⟩, hmem, rfl⟩ := List.mem_map.mp (hsnd.symm ▸ hi)
    have := hidx _ hmem
    rwa [List.nil_append, List.length_map] at this
  have habbrind : ∀ x ∈ types, x.abbrind.toNat < abbreviation.length := by
    intro x hx
    refine hsafe.arrbIdx_lt x.localtime ?_
    rw [hlocal]
    exact List.mem_append_right _ (List.mem_map_of_mem hx)
  refine ⟨⟨v, reserved, by omega, isgmtcnt, isstdcnt, leapcnt, timecnt, typecnt, charcnt, times,
    indices, types, abbreviation, by omega, by omega, by omega, hchar, htypesNe, hindicesLt,
    habbrind⟩, ⟨rest, ?_⟩, hfits⟩
  rw [← htail, hrest]
  simp only [encode, List.append_assoc]

theorem readsWhole (z : ZoneFile) {stack : Nat} (h : z.FitsStack stack) (rest : List UInt8) :
    ∃ data, ReadsWhole stack (z.encode ++ rest) data ∧ data.Safe := by
  have htime := z.timecnt_eq
  have htype := z.typecnt_eq
  have hchar := z.charcnt_eq
  obtain ⟨hhead, habbr⟩ := h
  let before : Source Data :=
    ⟨z.abbreviation ++ rest, { localtimes := z.types.map ZoneType.localtime }⟩
  have hidx : ∀ x ∈ (z.times.map Word.value).zip z.indices,
      x.2.toNat < before.data.localtimes.length := fun x hx => by
    rw [List.length_map]
    exact z.indices_lt _ (List.of_mem_zip hx).2
  obtain ⟨⟨rest', data⟩, hpush⟩ := pushTransitions_ok hidx
  obtain ⟨-, hrest', hlocal, htrans⟩ := ok_pushTransitions hpush
  refine ⟨{ data with abbreviation := z.abbreviation }, ⟨⟨rest, _⟩, ?_, rfl⟩, ?_, ?_, ?_⟩
  · simp only [readZone, reserve, ok_bind_readBytes, ok_bind_require, reads_readInt32.ok_bind,
      reads_readInt32.ok_bind_times, reads_readUInt8.ok_bind_times,
      reads_readLocaltime.ok_bind_times, foldl_localtimes, List.foldl_fixed, List.map_id',
      List.flatMap_singleton']
    refine ⟨magic, _, ?_, rfl, List.append_assoc .., rfl, [z.version], _, ?_, rfl,
      List.append_assoc .., z.reserved, _, ?_, ?_, List.append_assoc .., z.isgmtcnt, _,
      List.append_assoc .., z.isstdcnt, _, List.append_assoc .., z.leapcnt, _,
      List.append_assoc .., z.timecnt, _, List.append_assoc .., z.typecnt, _,
      List.append_assoc .., z.charcnt, _, List.append_assoc .., ?_, z.times, _, ?_,
      List.append_assoc .., z.indices, _, ?_, List.append_assoc .., z.types, _, ?_,
      List.append_assoc .., ?_⟩
    · omega
    · omega
    · omega
    · rw [z.reserved_length]; rfl
    · omega
    · omega
    · rw [z.indices_length]; omega
    · omega
    · refine ok_bind.mpr ⟨(), _, hpush, ?_⟩
      refine ok_bind_readBytes.mpr ⟨z.abbreviation, rest, by omega, hchar, hrest', ?_⟩
      rfl
  · show data.localtimes ≠ []
    rw [hlocal]
    exact fun hnil => z.types_ne (List.map_eq_nil_iff.mp hnil)
  · intro x hx
    show x.localtimeIdx < data.localtimes.length
    rw [hlocal]
    exact (htrans x hx).resolve_left List.not_mem_nil
  · intro l hl
    change l ∈ data.localtimes at hl
    rw [hlocal] at hl
    obtain ⟨x, hx, rfl⟩ := List.mem_map.mp hl
    exact z.abbrind_lt x hx

end ZoneFile

/-- A reading of the file was begun and failed, or there was nothing to read. -/
def LoadFails (stack : Nat) (zonefile : Option (List UInt8)) : Prop :=
  ∀ bytes ∈ zonefile, ∀ data, ¬ ReadsWhole stack bytes data

/-- The construction is defined, and a zone that says it is valid can be used with any
argument and comes from a whole reading. -/
def LoadsSafely (stack : Nat) (zonefile : Option (List UInt8)) : Prop :=
  ∃ tz, TimeZone.ofFile stack zonefile = some tz ∧ (tz.valid = true →
    ¬ LoadFails stack zonefile ∧ (∃ data, tz.data_ = some data ∧ data.Safe) ∧
      (∀ t, (tz.toLocalTime t).isSome) ∧ ∀ tm, (tz.fromLocalTime tm).isSome)

theorem ofFile_readsWhole {stack : Nat} {bytes : List UInt8} {data : Data}
    (h : ReadsWhole stack bytes data) : TimeZone.ofFile stack (some bytes) = some ⟨some data⟩ := by
  obtain ⟨s', hok, rfl⟩ := h
  have houtcome : (readZone stack).outcome ⟨bytes, {}⟩ = (.ok (), s') := hok
  have hread : readTimeZoneFile stack (some bytes) = some (true, s'.data) := by
    rw [readTimeZoneFile.eq_def]
    dsimp only
    rw [houtcome]
  rw [TimeZone.ofFile, hread]
  rfl

/-- A table is never discarded. -/
theorem valid_of_ofFile {stack : Nat} {zonefile : Option (List UInt8)} {tz : TimeZone}
    (h : TimeZone.ofFile stack zonefile = some tz) : tz.valid = true := by
  obtain ⟨⟨loaded, data⟩, hread, htz⟩ := Option.bind_eq_some_iff.mp h
  have hloaded : loaded = true := by
    rw [readTimeZoneFile.eq_def] at hread
    split at hread
    · cases hread
      rfl
    · split at hread
      · cases hread
      · cases hread
        rfl
  subst hloaded
  cases htz
  rfl

/-- Loading is safe from the files that begin with a well formed zone, and from no others. -/
theorem loadsSafely_iff (stack : Nat) (zonefile : Option (List UInt8)) :
    LoadsSafely stack zonefile ↔ ∃ bytes, zonefile = some bytes ∧
      ∃ z : ZoneFile, z.encode <+: bytes ∧ z.FitsStack stack := by
  constructor
  · rintro ⟨tz, htz, hsafe⟩
    obtain ⟨hwhole, ⟨data, hdata, hdataSafe⟩, -, -⟩ := hsafe (valid_of_ofFile htz)
    obtain ⟨bytes, hbytes, data', hread⟩ :
        ∃ bytes ∈ zonefile, ∃ data, ReadsWhole stack bytes data := by
      by_contra hnone
      exact hwhole fun bytes hbytes data hread => hnone ⟨bytes, hbytes, data, hread⟩
    obtain rfl : zonefile = some bytes := hbytes
    obtain rfl := Option.some.inj ((ofFile_readsWhole hread).symm.trans htz)
    obtain rfl : data' = data := Option.some.inj hdata
    exact ⟨bytes, rfl, ZoneFile.of_readsWhole hread hdataSafe⟩
  · rintro ⟨_, rfl, z, ⟨rest, rfl⟩, hfits⟩
    obtain ⟨data, hread, hsafe⟩ := z.readsWhole hfits rest
    refine ⟨_, ofFile_readsWhole hread, fun _ => ⟨fun hfails => ?_, ⟨data, rfl, hsafe⟩,
      hsafe.toLocalTime_isSome, hsafe.fromLocalTime_isSome⟩⟩
    exact hfails _ rfl data hread

/-- A file that cannot be opened leaves a valid zone with an empty table. -/
theorem loadsSafely_fails_unreadable : ¬ ∀ stack zonefile, LoadsSafely stack zonefile := by
  intro h
  obtain ⟨tz, htz, hsafe⟩ := h 8388608 none
  obtain ⟨-, ⟨data, hdata, hdataSafe⟩, -⟩ := hsafe (valid_of_ofFile htz)
  obtain rfl : tz = ⟨some {}⟩ := Option.some.inj (htz.symm.trans rfl)
  obtain rfl : data = {} := (Option.some.inj hdata).symm
  exact hdataSafe.localtimes_ne rfl

end Cnet.Base
