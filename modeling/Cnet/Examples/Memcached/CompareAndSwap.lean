import Cnet.Examples.Memcached.StoreRefinement

/-!
# Compare and swap

The number of an item is the value that the shared counter had when it was stored. As long
as the counter has not gone round, a `cas` with the number that a `gets` has told succeeds
exactly if nobody has written to the key in between, whichever sessions the calls come from.
-/

namespace Cnet.Examples.Memcached.MemcacheServer

open Cnet.Support Cnet.Base
open Cnet.Net (Bytes)
open Item (UpdatePolicy Value)

variable {hash : Bytes → Nat} {s s' : MemcacheServer} {m : Contents}

/-- Calls that all return lead to a server that refines the map after their commands. -/
theorem Refines.of_serveAll (h : Refines hash s m) {requests : List Request}
    {commands : List Command} (hasks : List.Forall₂ Asks requests commands)
    {responses : List Response} (hs : s.serveAll hash requests = some (responses, s')) :
    Refines hash s' (m.run (commands.map Command.operation)) := by
  obtain ⟨hgood, hbad⟩ := h.serveAll hasks
  by_cases hfits : FitsAll m commands
  · obtain ⟨responses', s'', hs', -, href⟩ := hgood hfits
    rw [hs'] at hs
    obtain ⟨-, rfl⟩ := Prod.mk.inj (Option.some.inj hs)
    exact href
  · rw [hbad hfits] at hs
    exact absurd hs.symm (Option.some_ne_none _)

/-- The entry of an item that is found. -/
theorem Refines.entry_of_getItem (h : Refines hash s m) {key : Bytes} {found : Item}
    (hget : s.getItem hash key = some found) :
    ∃ v t, m.entry key = some (v, t) ∧ found.Holds key v (UInt64.ofNat t) := by
  have hfind := h.find key
  rw [show Buckets.find Item.key key (s.items hash key) = some found from hget] at hfind
  cases hentry : m.entry key with
  | none => rw [hentry] at hfind; cases hfind
  | some e =>
    rw [hentry] at hfind
    cases hfind with
    | some hholds => exact ⟨e.1, e.2, rfl, hholds⟩

theorem ofNat_inj {t t' : Nat} (ht : t < 18446744073709551616) (ht' : t' < 18446744073709551616)
    (h : UInt64.ofNat t' = UInt64.ofNat t) : t' = t := by
  have htoNat := congrArg UInt64.toNat h
  rwa [UInt64.toNat_ofNat_of_lt' ht', UInt64.toNat_ofNat_of_lt' ht] at htoNat

/-- A `cas` wins exactly over the number it names. -/
theorem wins_kCas_iff (hsound : m.Sound) (hclock : m.clock < 18446744073709551616) {t : Nat}
    (ht : t < 18446744073709551616) (key : Bytes) :
    wins .kCas (UInt64.ofNat t) (m.entry key) = true ↔ ∃ w, m.entry key = some (w, t) := by
  cases hentry : m.entry key with
  | none => exact ⟨fun hwins => absurd hwins Bool.false_ne_true, nofun⟩
  | some e =>
    obtain ⟨w, t'⟩ := e
    have hle := hsound.le_clock key w t' hentry
    constructor
    · intro hwins
      obtain rfl := ofNat_inj ht (by omega) (of_decide_eq_true hwins)
      exact ⟨w, rfl⟩
    · rintro ⟨w', hsame⟩
      obtain ⟨rfl, rfl⟩ := Prod.mk.inj (Option.some.inj hsame)
      exact decide_eq_true rfl

/-- No update is lost: between a `gets` and a `cas` with its number, made of an item that is
complete, `cas` returns true exactly if none of the commands of all sessions in between has
written to the key. -/
theorem storeItem_kCas_iff_untouched (hash : Bytes → Nat) {requests₁ requests₂ : List Request}
    {commands₁ commands₂ : List Command} (hasks₁ : List.Forall₂ Asks requests₁ commands₁)
    (hasks₂ : List.Forall₂ Asks requests₂ commands₂)
    (hcount : commands₁.length + commands₂.length < 18446744073709551616)
    {responses₁ responses₂ : List Response} {s₁ s₂ : MemcacheServer}
    (h₁ : new.serveAll hash requests₁ = some (responses₁, s₁)) {key : Bytes} {found : Item}
    (hget : s₁.getItem hash key = some found)
    (h₂ : s₁.serveAll hash requests₂ = some (responses₂, s₂)) {item : Item} {v : Value}
    (hitem : item.Holds key v found.cas_) :
    (∃ s₃, s₂.storeItem hash item .kCas = some ((true, true), s₃)) ↔
      Versions.Untouched key (Versions.empty.run (commands₁.map Command.operation))
        (commands₂.map Command.operation) := by
  have href₁ := (refines_new hash).of_serveAll hasks₁ h₁
  have href₂ := href₁.of_serveAll hasks₂ h₂
  set m₁ := Versions.empty.run (commands₁.map Command.operation)
  set m₂ := m₁.run (commands₂.map Command.operation) with hm₂
  have hsound : m₁.Sound := Versions.sound_empty.run _
  have hclock₁ : m₁.clock ≤ commands₁.length := by
    have := Versions.empty.run_clock_le (commands₁.map Command.operation)
    rwa [List.length_map, Versions.empty, Nat.zero_add] at this
  have hclock₂ : m₂.clock ≤ m₁.clock + commands₂.length := by
    have := m₁.run_clock_le (commands₂.map Command.operation)
    rwa [List.length_map] at this
  obtain ⟨w, t, hentry, hfound⟩ := href₁.entry_of_getItem hget
  have ht := hsound.le_clock key w t hentry
  rw [hfound.cas_eq] at hitem
  obtain ⟨hstore, -⟩ := href₂.storeItem hitem .kCas
  obtain ⟨s₃, hs₃, -⟩ := hstore fun _ => hitem.fits
  have hsound₂ : m₂.Sound := hsound.run _
  have hwins := wins_kCas_iff hsound₂ (by omega) (by omega : t < 18446744073709551616) key
  rw [← Versions.same_version_iff hsound hentry, ← hm₂, ← hwins, hs₃]
  constructor
  · rintro ⟨s₃', hsame⟩
    have htrue := (Prod.mk.inj (Prod.mk.inj (Option.some.inj hsame)).1).1
    rwa [decide_eq_false nofun, Bool.or_false] at htrue
  · intro htrue
    obtain ⟨w', hw'⟩ := hwins.mp htrue
    exact ⟨s₃, by rw [htrue, hw']; rfl⟩

/-- Another `get` and another `set` of the key come in between: the `cas` fails. -/
theorem storeItem_kCas_iff_untouched_sample :
    ∃ s₁ s₂ responses,
      new.serveAll (fun _ => 0) [.store .kSet sampleItem] = some ([.stored true false], s₁) ∧
      s₁.serveAll (fun _ => 0) [.get (chars "k"), .store .kSet sampleItem] =
        some (responses, s₂) ∧
      ((∃ s₃, s₂.storeItem (fun _ => 0) (sampleItem.setCas 1) .kCas = some ((true, true), s₃)) ↔
        Versions.Untouched (chars "k") (Versions.empty.run
          ([Command.store .kSet (chars "k") ⟨0, 0, chars "x"⟩ 0].map Command.operation))
          ([Command.get (chars "k"), .store .kSet (chars "k") ⟨0, 0, chars "x"⟩ 0].map
            Command.operation)) :=
  have hfound : Item.cas_ (sampleItem.setCas 1) = 1 := rfl
  ⟨_, _, _, rfl, rfl, storeItem_kCas_iff_untouched (fun _ => 0)
    (.cons (.store sampleItem_holds) .nil)
    (.cons (.get _) (.cons (.store sampleItem_holds) .nil))
    (by decide) rfl rfl rfl (hfound ▸ sampleItem_holds.setCas 1)⟩

end Cnet.Examples.Memcached.MemcacheServer
