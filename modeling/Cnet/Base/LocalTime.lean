import Cnet.Base.TimeZone

/-!
# To local time and back

Between two transitions one local time type is in force. `toLocalTime` finds it by time,
`fromLocalTime` by local time, and both find the same one, but in the times that a
backward shift repeats: before the shift they are taken for those after it, and put right
by a shift of 3600 seconds whatever the shift was.
-/

namespace Cnet.Base

open Cnet.Support

namespace Comp

/-- What `comp` compares. -/
def key (comp : Comp) (x : Transition) : Int := if comp.compareGmt then x.gmttime else x.localtime

theorem less_iff (comp : Comp) (x y : Transition) :
    comp.less x y = true ↔ comp.key x < comp.key y := by
  rw [less, key, key]
  split <;> exact decide_eq_true_iff

theorem equal_iff (comp : Comp) (x y : Transition) :
    comp.equal x y = true ↔ comp.key x = comp.key y := by
  rw [equal, key, key]
  split <;> exact decide_eq_true_iff

end Comp

/-- The fields of time `t` where the type `l` is in force. -/
def Localtime.fields (l : Localtime) (t : Int) : Tm :=
  { gmtime_r (t + l.gmtOffset) with
    tm_isdst := if l.isDst then 1 else 0
    tm_gmtoff := l.gmtOffset
    tm_zone := l.arrbIdx }

theorem Localtime.timegm_fields (l : Localtime) (t : Int) :
    timegm (l.fields t) = t + l.gmtOffset := timegm_gmtime_r _

theorem Localtime.isdst_fields (l : Localtime) (t : Int) :
    (l.fields t).tm_isdst ≠ 0 ↔ l.isDst = true := by
  rw [fields]
  by_cases hdst : l.isDst = true
  · exact iff_of_true ((if_pos hdst).trans_ne Int.one_ne_zero) hdst
  · exact iff_of_false (not_not.mpr (if_neg hdst)) hdst

namespace Data

/-- The type in force after the first `p` transitions. -/
def typeAt (data : Data) : Nat → Option Localtime
  | 0 => data.localtimes.head?
  | p + 1 => data.transitiions[p]?.bind fun x => data.localtimes[x.localtimeIdx]?

/-- The keys of the transitions increase. -/
def Increasing (data : Data) (comp : Comp) : Prop :=
  ∀ (i j : Nat) (x y : Transition), i < j → data.transitiions[i]? = some x →
    data.transitiions[j]? = some y → comp.key x < comp.key y

/-- The transitions up to `v` are the first `p`. -/
structure Splits (data : Data) (comp : Comp) (v : Int) (p : Nat) : Prop where
  le : p ≤ data.transitiions.length
  iff : ∀ i x, data.transitiions[i]? = some x → (comp.key x ≤ v ↔ i < p)

variable {data : Data} {comp : Comp}

theorem Increasing.exists_splits (h : data.Increasing comp) (v : Int) :
    ∃ p, data.Splits comp v p := by
  obtain ⟨p, -, hle, hbefore, hhere⟩ :=
    lowerBound_spec data.transitiions fun x => decide (comp.key x ≤ v)
  refine ⟨p, hle, fun i x hx => ⟨fun hkey => ?_, fun hlt => ?_⟩⟩
  · by_contra hge
    have hp := List.getElem?_eq_getElem (l := data.transitiions) (i := p)
      (by have := (List.getElem?_eq_some_iff.mp hx).1; omega)
    have hno := of_decide_eq_false (hhere _ hp)
    rcases Nat.eq_or_lt_of_le (Nat.le_of_not_lt hge) with heq | hgt
    · obtain rfl := heq
      exact hno (Option.some.inj (hx.symm.trans hp) ▸ hkey)
    · exact hno (le_of_lt (lt_of_lt_of_le (h p i _ x hgt hp hx) hkey))
  · have hp := List.getElem?_eq_getElem (l := data.transitiions) (i := p - 1) (by omega)
    have hyes := of_decide_eq_true (hbefore (p - 1) _ (by omega) hp)
    rcases Nat.eq_or_lt_of_le (Nat.le_sub_one_of_lt hlt) with heq | hgt
    · obtain rfl := heq
      exact Option.some.inj (hx.symm.trans hp) ▸ hyes
    · exact le_of_lt (lt_of_lt_of_le (h i (p - 1) x _ hgt hx hp) hyes)

section
variable (hinc : data.Increasing comp) {sentry last : Transition} {q : Nat}
  (hp : data.Splits comp (comp.key sentry) (q + 1)) (hq : data.transitiions[q]? = some last)
include hinc hp hq

/-- The search stops at a transition with the very key that is looked for. -/
theorem lowerBound_of_key_eq (heq : comp.key last = comp.key sentry) :
    lowerBound data.transitiions (fun x => comp.less x sentry) = some q := by
  refine lowerBound_eq (Nat.le_of_lt hp.le) fun i x hx => ?_
  rw [comp.less_iff, ← heq]
  constructor
  · intro hlt
    by_contra hge
    rcases Nat.eq_or_lt_of_le (Nat.le_of_not_lt hge) with hiq | hgt
    · obtain rfl := hiq
      obtain rfl := Option.some.inj (hq.symm.trans hx)
      exact lt_irrefl _ hlt
    · exact lt_asymm hlt (hinc q i last x hgt hq hx)
  · exact fun hlt => hinc i q x last hlt hx hq

/-- Otherwise it stops behind the last transition before it. -/
theorem lowerBound_of_key_ne (hne : comp.key last ≠ comp.key sentry) :
    lowerBound data.transitiions (fun x => comp.less x sentry) = some (q + 1) := by
  have hlastLe := (hp.iff q last hq).mpr (Nat.lt_succ_self q)
  refine lowerBound_eq hp.le fun i x hx => ?_
  rw [comp.less_iff, ← hp.iff i x hx]
  refine ⟨le_of_lt, fun hle => lt_of_le_of_ne hle fun hkey => ?_⟩
  rcases Nat.eq_or_lt_of_le (Nat.le_of_lt_succ ((hp.iff i x hx).mp hle)) with hiq | hlt
  · obtain rfl := hiq
    obtain rfl := Option.some.inj (hq.symm.trans hx)
    exact hne hkey
  · have := hinc i q x last hlt hx hq
    omega

section
variable {front : Transition} {rest : List Transition}
  (hfront : data.transitiions = front :: rest) (hafter : ¬ comp.less sentry front = true)
include hfront hafter

theorem findLocaltime_of_key_eq (heq : comp.key last = comp.key sentry) :
    data.findLocaltime sentry comp = data.localtimes[last.localtimeIdx]? := by
  have hequal : comp.equal sentry last = true := (comp.equal_iff _ _).mpr heq.symm
  rw [findLocaltime, hfront]
  dsimp only
  rw [if_neg hafter, ← hfront, lowerBound_of_key_eq hinc hp hq heq, Option.bind_eq_bind,
    Option.bind_some, hq]
  exact if_pos hequal

/-- From the place behind it the search goes back to the last transition, also from the
end. -/
theorem findLocaltime_of_key_ne (hne : comp.key last ≠ comp.key sentry) :
    data.findLocaltime sentry comp = data.localtimes[last.localtimeIdx]? := by
  rw [findLocaltime, hfront]
  dsimp only
  rw [if_neg hafter, ← hfront, lowerBound_of_key_ne hinc hp hq hne, Option.bind_eq_bind,
    Option.bind_some]
  cases hnext : data.transitiions[q + 1]? with
  | none =>
    have hlen : data.transitiions.length = q + 1 := by
      have := List.getElem?_eq_none_iff.mp hnext
      have := hp.le
      omega
    have hback : data.transitiions.getLast? = some last := by
      rw [List.getLast?_eq_getElem?, hlen]
      exact hq
    rw [hback]
    rfl
  | some x =>
    have hgt := (hp.iff (q + 1) x hnext).not.mpr (Nat.lt_irrefl _)
    have hnot : ¬ comp.equal sentry x = true := fun h =>
      hgt (le_of_eq ((comp.equal_iff _ _).mp h).symm)
    dsimp only
    rw [if_neg hnot, assert_pos (Nat.succ_ne_zero q), Nat.add_sub_cancel, hq]
    rfl

end

end

/-- The search finds the type in force. -/
theorem findLocaltime_eq (hinc : data.Increasing comp) {sentry : Transition} {p : Nat}
    (hp : data.Splits comp (comp.key sentry) p) :
    data.findLocaltime sentry comp = data.typeAt p := by
  cases htr : data.transitiions with
  | nil =>
    have hzero : p = 0 := by
      have := hp.le
      rw [htr] at this
      exact Nat.le_zero.mp this
    rw [findLocaltime, htr, hzero]
    rfl
  | cons front rest =>
    have hfront : data.transitiions[0]? = some front := by rw [htr]; rfl
    by_cases hbefore : comp.less sentry front = true
    · have hnot := (hp.iff 0 front hfront).not.mp (not_le.mpr ((comp.less_iff _ _).mp hbefore))
      rw [findLocaltime, htr, Nat.eq_zero_of_not_pos hnot]
      exact if_pos hbefore
    · have hle := not_lt.mp ((comp.less_iff _ _).not.mp hbefore)
      have hpos := (hp.iff 0 front hfront).mp hle
      obtain ⟨q, rfl⟩ := Nat.exists_eq_succ_of_ne_zero (Nat.ne_of_gt hpos)
      have hlt : q < data.transitiions.length := hp.le
      obtain ⟨last, hq⟩ : ∃ last, data.transitiions[q]? = some last :=
        ⟨_, List.getElem?_eq_getElem hlt⟩
      rw [typeAt, hq, Option.bind_some]
      by_cases heq : comp.key last = comp.key sentry
      · exact findLocaltime_of_key_eq hinc hp hq htr hbefore heq
      · exact findLocaltime_of_key_ne hinc hp hq htr hbefore heq

/-- The last of the transitions up to `v`. -/
def lastUpTo (data : Data) (comp : Comp) (v : Int) : Option Transition :=
  (data.transitiions.filter fun x => comp.key x ≤ v).getLast?

/-- The type that a transition begins, and the first one before all of them. -/
def typeFrom (data : Data) : Option Transition → Option Localtime
  | none => data.localtimes.head?
  | some x => data.localtimes[x.localtimeIdx]?

theorem Splits.filter_eq {v : Int} {p : Nat} (hp : data.Splits comp v p) :
    (data.transitiions.filter fun x => comp.key x ≤ v) = data.transitiions.take p := by
  have hfirst : (data.transitiions.take p).filter (fun x => comp.key x ≤ v) =
      data.transitiions.take p := by
    apply List.filter_eq_self.mpr
    intro x hx
    obtain ⟨i, hi, rfl⟩ := List.mem_take_iff_getElem.mp hx
    exact decide_eq_true ((hp.iff i _ (List.getElem?_eq_getElem _)).mpr (by omega))
  have hrest : (data.transitiions.drop p).filter (fun x => comp.key x ≤ v) = [] := by
    apply List.filter_eq_nil_iff.mpr
    intro x hx
    obtain ⟨i, hi, rfl⟩ := List.mem_drop_iff_getElem.mp hx
    have hlen : p + i < data.transitiions.length := by omega
    have hnot := (hp.iff (p + i) _ (List.getElem?_eq_getElem hlen)).not.mpr (by omega)
    exact (decide_eq_true_iff).not.mpr hnot
  calc data.transitiions.filter (fun x => comp.key x ≤ v)
      = (data.transitiions.take p ++ data.transitiions.drop p).filter
          (fun x => comp.key x ≤ v) := by rw [List.take_append_drop]
    _ = data.transitiions.take p := by
      rw [List.filter_append, hfirst, hrest, List.append_nil]

theorem Splits.typeAt_eq {v : Int} {p : Nat} (hp : data.Splits comp v p) :
    data.typeAt p = data.typeFrom (data.lastUpTo comp v) := by
  rw [lastUpTo, hp.filter_eq]
  cases p with
  | zero => rfl
  | succ q =>
    obtain ⟨x, hq⟩ : ∃ x, data.transitiions[q]? = some x :=
      ⟨_, List.getElem?_eq_getElem hp.le⟩
    rw [List.getLast?_take, if_neg (Nat.succ_ne_zero q), Nat.add_sub_cancel, typeAt, hq]
    rfl

/-- On a table in order the search finds the type of the last transition up to the sentry,
inside the table. -/
theorem findLocaltime_last (hinc : data.Increasing comp) (hne : data.localtimes ≠ [])
    (hidx : ∀ x ∈ data.transitiions, x.localtimeIdx < data.localtimes.length)
    (sentry : Transition) :
    ∃ l, data.findLocaltime sentry comp = some l ∧
      data.typeFrom (data.lastUpTo comp (comp.key sentry)) = some l := by
  obtain ⟨p, hp⟩ := hinc.exists_splits (comp.key sentry)
  have hfind := (findLocaltime_eq hinc hp).trans hp.typeAt_eq
  rw [hfind]
  cases hlast : data.lastUpTo comp (comp.key sentry) with
  | none => exact ⟨_, List.head?_eq_some_head hne, List.head?_eq_some_head hne⟩
  | some x =>
    have hmem : x ∈ data.transitiions := List.mem_of_mem_filter (List.mem_of_getLast? hlast)
    have hx := List.getElem?_eq_getElem (hidx x hmem)
    exact ⟨_, hx, hx⟩

/-- An hour forward and an hour back. -/
def forwardAndBack : Data :=
  { transitiions := [⟨100, 3700, 1⟩, ⟨10000, 10000, 0⟩]
    localtimes := [⟨0, false, 0⟩, ⟨3600, true, 4⟩] }

theorem forwardAndBack_increasing : forwardAndBack.Increasing ⟨false⟩ := by
  intro i j x y hij hx hy
  have hj : j < 2 := (List.getElem?_eq_some_iff.mp hy).1
  obtain ⟨rfl, rfl⟩ : i = 0 ∧ j = 1 := by omega
  obtain rfl := Option.some.inj hx
  obtain rfl := Option.some.inj hy
  decide

theorem findLocaltime_last_between :
    ∃ l, forwardAndBack.findLocaltime ⟨0, 5000, 0⟩ ⟨false⟩ = some l ∧
      forwardAndBack.typeFrom (forwardAndBack.lastUpTo ⟨false⟩ 5000) = some l :=
  findLocaltime_last forwardAndBack_increasing (List.cons_ne_nil _ _) (by decide) ⟨0, 5000, 0⟩

/-- A table as the constructors make it, with the transitions far enough apart, and with
`tm_isdst` telling the two apart wherever a local time comes twice. -/
structure Regular (data : Data) : Prop where
  typed : ∀ p ≤ data.transitiions.length, ∃ l, data.typeAt p = some l
  named : ∀ l ∈ data.localtimes, l.arrbIdx ≤ data.abbreviation.length
  begins : ∀ (p : Nat) (x : Transition) (l : Localtime), data.transitiions[p]? = some x →
    data.typeAt (p + 1) = some l → x.localtime = x.gmttime + l.gmtOffset
  increasing : ∀ (p : Nat) (x y : Transition), data.transitiions[p]? = some x →
    data.transitiions[p + 1]? = some y → x.gmttime < y.gmttime
  apart : ∀ (p : Nat) (x y : Transition), data.transitiions[p]? = some x →
    data.transitiions[p + 1]? = some y → ∀ l ∈ data.localtimes, ∀ m ∈ data.localtimes,
      2 * (l.gmtOffset - m.gmtOffset) < y.gmttime - x.gmttime
  lowered : ∀ (p : Nat) (before after : Localtime), data.typeAt p = some before →
    data.typeAt (p + 1) = some after → after.gmtOffset < before.gmtOffset →
      before.isDst = true ∧ after.isDst = false

theorem typeAt_mem {p : Nat} {l : Localtime} (h : data.typeAt p = some l) :
    l ∈ data.localtimes := by
  cases p with
  | zero => exact List.mem_of_head? h
  | succ p =>
    obtain ⟨x, -, hx⟩ := Option.bind_eq_some_iff.mp h
    exact List.mem_of_getElem? hx

namespace Regular

variable (h : data.Regular)
include h

/-- Two transitions, not only consecutive ones, are far apart. -/
theorem apart_of_lt {i j : Nat} (hij : i < j) {x y : Transition}
    (hx : data.transitiions[i]? = some x) (hy : data.transitiions[j]? = some y) :
    x.gmttime < y.gmttime ∧ ∀ l ∈ data.localtimes, ∀ m ∈ data.localtimes,
      2 * (l.gmtOffset - m.gmtOffset) < y.gmttime - x.gmttime := by
  induction j, hij using Nat.le_induction generalizing y with
  | base => exact ⟨h.increasing i x y hx hy, h.apart i x y hx hy⟩
  | succ j hij ih =>
    have hj := (List.getElem?_eq_some_iff.mp hy).1
    obtain ⟨z, hz⟩ : ∃ z, data.transitiions[j]? = some z :=
      ⟨_, List.getElem?_eq_getElem (by omega)⟩
    obtain ⟨hlt, hfar⟩ := ih hz
    have hnext := h.increasing j z y hz hy
    refine ⟨lt_trans hlt hnext, fun l hl m hm => ?_⟩
    have := hfar l hl m hm
    omega

theorem increasing_gmt : data.Increasing ⟨true⟩ := fun _ _ _ _ hij hx hy =>
  (h.apart_of_lt hij hx hy).1

/-- Local times of transitions are in the same order. -/
theorem increasing_local : data.Increasing ⟨false⟩ := by
  intro i j x y hij hx hy
  show x.localtime < y.localtime
  have hi := (List.getElem?_eq_some_iff.mp hx).1
  have hj := (List.getElem?_eq_some_iff.mp hy).1
  obtain ⟨l, hl⟩ := h.typed (i + 1) hi
  obtain ⟨m, hm⟩ := h.typed (j + 1) hj
  obtain ⟨hlt, hfar⟩ := h.apart_of_lt hij hx hy
  have := hfar l (typeAt_mem hl) m (typeAt_mem hm)
  rw [h.begins i x l hx hl, h.begins j y m hy hm]
  omega

/-- `toLocalTime`, by the type in force. -/
theorem toLocalTime_eq {t : Int} {p : Nat} {l : Localtime} (hp : data.Splits ⟨true⟩ t p)
    (hl : data.typeAt p = some l) :
    data.toLocalTime t = some (l.fields t) := by
  have hp' : data.Splits ⟨true⟩ (Comp.key ⟨true⟩ ⟨t, 0, 0⟩) p := hp
  have hfind := (findLocaltime_eq h.increasing_gmt hp').trans hl
  rw [toLocalTime, hfind, Option.bind_eq_bind, Option.bind_some,
    assert_pos (h.named l (typeAt_mem hl))]
  rfl

/-- A time and a transition that is not the next one are in the same order as their local
times. -/
theorem local_le_iff {t : Int} {p : Nat} {l : Localtime} (hp : data.Splits ⟨true⟩ t p)
    (hl : data.typeAt p = some l) {i : Nat} {x : Transition}
    (hx : data.transitiions[i]? = some x) (hip : i ≠ p) :
    x.localtime ≤ t + l.gmtOffset ↔ i < p := by
  have hi := (List.getElem?_eq_some_iff.mp hx).1
  obtain ⟨m, hm⟩ := h.typed (i + 1) hi
  rw [h.begins i x m hx hm]
  have hiff : x.gmttime ≤ t ↔ i < p := hp.iff i x hx
  constructor
  · intro hle
    by_contra hge
    obtain ⟨y, hy⟩ : ∃ y, data.transitiions[p]? = some y :=
      ⟨_, List.getElem?_eq_getElem (by omega)⟩
    have hlater := (hp.iff p y hy).not.mpr (Nat.lt_irrefl p)
    change ¬ y.gmttime ≤ t at hlater
    obtain ⟨hlt, hfar⟩ := h.apart_of_lt (by omega : p < i) hy hx
    have := hfar l (typeAt_mem hl) m (typeAt_mem hm)
    omega
  · intro hlt
    have hle := hiff.mpr hlt
    rcases Nat.eq_or_lt_of_le (Nat.succ_le_of_lt hlt) with heq | hgt
    · obtain rfl := heq
      obtain rfl := Option.some.inj (hl.symm.trans hm)
      omega
    · obtain ⟨y, hy⟩ : ∃ y, data.transitiions[p - 1]? = some y :=
        ⟨_, List.getElem?_eq_getElem (by have := hp.le; omega)⟩
      have hbefore : y.gmttime ≤ t := (hp.iff (p - 1) y hy).mpr (by omega)
      obtain ⟨-, hfar⟩ := h.apart_of_lt (by omega : i < p - 1) hx hy
      have := hfar m (typeAt_mem hm) l (typeAt_mem hl)
      omega

/-- Where the local time search finds the type in force. -/
theorem fromLocalTime_same {t : Int} {p : Nat} {l : Localtime} (hp : data.Splits ⟨true⟩ t p)
    (hl : data.typeAt p = some l) {tm : Tm} (htm : data.toLocalTime t = some tm)
    (hnext : ∀ x, data.transitiions[p]? = some x → t + l.gmtOffset < x.localtime) :
    data.fromLocalTime tm = some t := by
  have hsplit : data.Splits ⟨false⟩ (Comp.key ⟨false⟩ ⟨0, t + l.gmtOffset, 0⟩) p := by
    refine ⟨hp.le, fun i x hx => ?_⟩
    show x.localtime ≤ t + l.gmtOffset ↔ i < p
    by_cases hip : i = p
    · obtain rfl := hip
      have := hnext x hx
      omega
    · exact h.local_le_iff hp hl hx hip
  have hfind := (findLocaltime_eq h.increasing_local hsplit).trans hl
  have hback : t + l.gmtOffset - l.gmtOffset = t := Int.add_sub_cancel t l.gmtOffset
  obtain rfl := Option.some.inj ((h.toLocalTime_eq hp hl).symm.trans htm)
  rw [fromLocalTime, l.timegm_fields, hfind, Option.bind_eq_bind, Option.bind_some, hback]
  by_cases hdst : (l.fields t).tm_isdst ≠ 0
  · rw [if_pos hdst, htm, Option.bind_eq_bind, Option.bind_some]
    exact if_neg fun hzero => hdst hzero.1
  · exact if_neg hdst

/-- Where it finds the next type: the trial conversion succeeds, and the result is an
hour less. -/
theorem fromLocalTime_next {t : Int} {p : Nat} {l m : Localtime} (hp : data.Splits ⟨true⟩ t p)
    (hl : data.typeAt p = some l) (hm : data.typeAt (p + 1) = some m) {tm : Tm}
    (htm : data.toLocalTime t = some tm) {x : Transition}
    (hx : data.transitiions[p]? = some x) (hnext : x.localtime ≤ t + l.gmtOffset) :
    data.fromLocalTime tm = some (t + (l.gmtOffset - m.gmtOffset) - 3600) := by
  have hlt : p < data.transitiions.length := (List.getElem?_eq_some_iff.mp hx).1
  have hlater : ¬ x.gmttime ≤ t := (hp.iff p x hx).not.mpr (Nat.lt_irrefl p)
  have hbegins := h.begins p x m hx hm
  obtain ⟨hdst, hnoDst⟩ := h.lowered p l m hl hm (by omega)
  have hsplit : data.Splits ⟨false⟩ (Comp.key ⟨false⟩ ⟨0, t + l.gmtOffset, 0⟩) (p + 1) := by
    refine ⟨hlt, fun i y hy => ?_⟩
    show y.localtime ≤ t + l.gmtOffset ↔ i < p + 1
    by_cases hip : i = p
    · obtain rfl := hip
      obtain rfl := Option.some.inj (hx.symm.trans hy)
      omega
    · rw [h.local_le_iff hp hl hy hip]
      omega
  have hsplit' : data.Splits ⟨true⟩ (t + l.gmtOffset - m.gmtOffset) (p + 1) := by
    refine ⟨hlt, fun i y hy => ?_⟩
    show y.gmttime ≤ t + l.gmtOffset - m.gmtOffset ↔ i < p + 1
    rcases Nat.lt_trichotomy i p with hip | rfl | hip
    · have := (h.apart_of_lt hip hy hx).1
      omega
    · obtain rfl := Option.some.inj (hx.symm.trans hy)
      omega
    · have := (h.apart_of_lt hip hx hy).2 l (typeAt_mem hl) m (typeAt_mem hm)
      omega
  have hfind := (findLocaltime_eq h.increasing_local hsplit).trans hm
  have htry := h.toLocalTime_eq hsplit' hm
  obtain rfl := Option.some.inj ((h.toLocalTime_eq hp hl).symm.trans htm)
  have hsame : (m.fields (t + l.gmtOffset - m.gmtOffset)).tm_hour = (l.fields t).tm_hour ∧
      (m.fields (t + l.gmtOffset - m.gmtOffset)).tm_min = (l.fields t).tm_min := by
    rw [Localtime.fields, Int.sub_add_cancel]
    exact ⟨rfl, rfl⟩
  have hzero : (m.fields (t + l.gmtOffset - m.gmtOffset)).tm_isdst = 0 :=
    not_not.mp ((m.isdst_fields _).not.mpr (hnoDst ▸ Bool.false_ne_true))
  rw [fromLocalTime, l.timegm_fields, hfind, Option.bind_eq_bind, Option.bind_some,
    if_pos ((l.isdst_fields t).mpr hdst), htry, Option.bind_eq_bind, Option.bind_some]
  refine (if_pos ⟨hzero, hsame⟩).trans ?_
  congr 1
  omega

/-- The transition just after `t` is the one at the end of the period of `t`. -/
theorem period_eq {t : Int} {p q : Nat} (hp : data.Splits ⟨true⟩ t p) {y : Transition}
    {l m : Localtime} (hy : data.transitiions[q]? = some y) (hl : data.typeAt q = some l)
    (hm : data.typeAt (q + 1) = some m) (hfrom : y.gmttime - (l.gmtOffset - m.gmtOffset) ≤ t)
    (hto : t < y.gmttime) : q = p := by
  have hq : ¬ q < p := fun hlt => not_lt.mpr ((hp.iff q y hy).mpr hlt) hto
  by_contra hne
  have hlen := (List.getElem?_eq_some_iff.mp hy).1
  obtain ⟨x, hx⟩ : ∃ x, data.transitiions[p]? = some x :=
    ⟨_, List.getElem?_eq_getElem (by omega)⟩
  have hlater : ¬ x.gmttime ≤ t := (hp.iff p x hx).not.mpr (Nat.lt_irrefl p)
  have := (h.apart_of_lt (by omega : p < q) hx hy).2 l (typeAt_mem hl) m (typeAt_mem hm)
  omega

end Regular

/-- Time `t` is in the last seconds before a transition that lowers the offset, as many as
it is lowered by, and these are not an hour. -/
def Misjudged (data : Data) (t : Int) : Prop :=
  ∃ (p : Nat) (x : Transition) (before after : Localtime), data.transitiions[p]? = some x ∧
    data.typeAt p = some before ∧ data.typeAt (p + 1) = some after ∧
      x.gmttime - (before.gmtOffset - after.gmtOffset) ≤ t ∧ t < x.gmttime ∧
        before.gmtOffset - after.gmtOffset ≠ 3600

end Data

namespace TimeZone

/-- `fromLocalTime` undoes `toLocalTime` at `t`, and both have a result. -/
def RoundTrip (tz : TimeZone) (t : Int) : Prop :=
  (tz.toLocalTime t).bind tz.fromLocalTime = some t

instance (tz : TimeZone) (t : Int) : Decidable (tz.RoundTrip t) :=
  inferInstanceAs (Decidable ((tz.toLocalTime t).bind tz.fromLocalTime = some t))

/-- On a regular table the round trip fails for the misjudged times, and for no others. -/
theorem roundTrip_iff {data : Data} (h : data.Regular) (t : Int) :
    (TimeZone.mk (some data)).RoundTrip t ↔ ¬ data.Misjudged t := by
  obtain ⟨p, hp⟩ := h.increasing_gmt.exists_splits t
  obtain ⟨l, hl⟩ := h.typed p hp.le
  obtain ⟨tm, htm⟩ : ∃ tm, data.toLocalTime t = some tm := ⟨_, h.toLocalTime_eq hp hl⟩
  have hround : (TimeZone.mk (some data)).RoundTrip t ↔ data.fromLocalTime tm = some t := by
    have hto : (TimeZone.mk (some data)).toLocalTime t = some tm := htm
    rw [RoundTrip, hto]
    rfl
  rw [hround]
  by_cases hnext : ∃ x, data.transitiions[p]? = some x ∧ x.localtime ≤ t + l.gmtOffset
  · obtain ⟨x, hx, hle⟩ := hnext
    have hlt : p < data.transitiions.length := (List.getElem?_eq_some_iff.mp hx).1
    have hlater : ¬ x.gmttime ≤ t := (hp.iff p x hx).not.mpr (Nat.lt_irrefl p)
    obtain ⟨m, hm⟩ := h.typed (p + 1) hlt
    have hbegins := h.begins p x m hx hm
    rw [h.fromLocalTime_next hp hl hm htm hx hle]
    constructor
    · rintro heq ⟨q, y, l', m', hy, hl', hm', hfrom, hto, hne⟩
      obtain rfl := h.period_eq hp hy hl' hm' hfrom hto
      obtain rfl := Option.some.inj (hl.symm.trans hl')
      obtain rfl := Option.some.inj (hm.symm.trans hm')
      have := Option.some.inj heq
      omega
    · intro hnot
      have hhour : l.gmtOffset - m.gmtOffset = 3600 := by
        by_contra hne
        exact hnot ⟨p, x, l, m, hx, hl, hm, by omega, by omega, hne⟩
      rw [hhour, Int.add_sub_cancel]
  · have hnext' : ∀ x, data.transitiions[p]? = some x → t + l.gmtOffset < x.localtime :=
      fun x hx => lt_of_not_ge fun hle => hnext ⟨x, hx, hle⟩
    refine ⟨fun _ => ?_, fun _ => h.fromLocalTime_same hp hl htm hnext'⟩
    rintro ⟨q, y, l', m', hy, hl', hm', hfrom, hto, hne⟩
    obtain rfl := h.period_eq hp hy hl' hm' hfrom hto
    obtain rfl := Option.some.inj (hl.symm.trans hl')
    have := hnext' y hy
    have := h.begins q y m' hy hm'
    omega

/-- A table whose shifts are of half an hour, with the names `+1030` and `+11`. -/
def halfHour : Data where
  transitiions := [⟨1696087800, 1696127400, 1⟩, ⟨1712415600, 1712453400, 0⟩]
  localtimes := [⟨37800, false, 0⟩, ⟨39600, true, 6⟩]
  abbreviation := [43, 49, 48, 51, 48, 0, 43, 49, 49, 0]

theorem halfHour_regular : halfHour.Regular where
  typed := by
    rintro (_ | _ | _ | p) hp
    · exact ⟨_, rfl⟩
    · exact ⟨_, rfl⟩
    · exact ⟨_, rfl⟩
    · exact absurd hp (by simp [halfHour])
  named := by decide
  begins := by
    rintro (_ | _ | p) x l hx hl
    · cases hx; cases hl; rfl
    · cases hx; cases hl; rfl
    · cases hx
  increasing := by
    rintro (_ | p) x y hx hy
    · cases hx; cases hy; decide
    · cases hy
  apart := by
    rintro (_ | p) x y hx hy
    · cases hx; cases hy; decide
    · cases hy
  lowered := by
    rintro (_ | _ | p) before after hb ha
    · cases hb; cases ha; decide
    · cases hb; cases ha; decide
    · cases ha

theorem roundTrip_iff_halfHour :
    (TimeZone.mk (some halfHour)).RoundTrip 1700000000 ↔ ¬ halfHour.Misjudged 1700000000 :=
  roundTrip_iff halfHour_regular 1700000000

theorem roundTrip_fails_halfHour :
    ¬ ∀ data : Data, data.Regular → ∀ t, (TimeZone.mk (some data)).RoundTrip t := fun h =>
  absurd (h halfHour halfHour_regular 1712415000) (by decide +kernel)

end TimeZone

end Cnet.Base
