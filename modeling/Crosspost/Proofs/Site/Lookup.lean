/-
  Looking sites up in a registry.

  * `Registry.Apart`: what two sites of a registry are (`Registry.pairwise_apart`);
  * `Registry.ids_nodup`: no two of them have one id, so that a site is found by its
    own (`Registry.get?_eq_some_iff`);
  * `Registry.get?_of_bindingSite?`: the site that a switch tag stands for is
    registered.
-/
import Mathlib.Data.List.Pairwise
import Mathlib.Tactic.Common
import Crosspost.Description.Document

namespace Crosspost.Registry

/-! ## Conflicts -/

/-- Two sites that have neither the id nor a spelling in common. -/
def Apart (s t : Site) : Prop := s.id ≠ t.id ∧ ∀ key ∈ t.keys, key ∉ s.keys

instance : Std.Symm Apart := ⟨fun _ _ h => ⟨h.1.symm, fun key hs ht => h.2 key ht hs⟩⟩

theorem conflictWith_eq_none_iff {earlier : List Site} {site : Site} :
    conflictWith earlier site = none ↔ ∀ e ∈ earlier, Apart e site := by
  unfold conflictWith
  constructor
  · intro h e he
    split_ifs at h with hid
    rw [List.findSome?_eq_none_iff] at h
    refine ⟨fun hsame => hid (List.any_eq_true.2 ⟨e, he, beq_iff_eq.2 hsame⟩),
      fun key hk hmem => ?_⟩
    have hfind := Option.map_eq_none_iff.1 (h key hk)
    exact List.find?_eq_none.1 hfind e he (List.contains_iff_mem.2 hmem)
  · intro h
    have hid : ¬ earlier.any (·.id == site.id) = true := by
      rw [List.any_eq_true]
      rintro ⟨e, he, hsame⟩
      exact (h e he).1 (beq_iff_eq.1 hsame)
    rw [if_neg hid, List.findSome?_eq_none_iff]
    intro key hk
    rw [Option.map_eq_none_iff, List.find?_eq_none]
    intro e he hmem
    exact (h e he).2 key hk (List.contains_iff_mem.1 hmem)

theorem conflict?_eq_none_iff {earlier sites : List Site} :
    conflict? earlier sites = none ↔
      sites.Pairwise Apart ∧ ∀ s ∈ sites, ∀ e ∈ earlier, Apart e s := by
  induction sites generalizing earlier with
  | nil => simp [conflict?]
  | cons s sites ih =>
    rw [conflict?, Option.or_eq_none_iff, conflictWith_eq_none_iff, ih, List.pairwise_cons]
    simp only [List.mem_append, List.mem_singleton, List.forall_mem_cons]
    constructor
    · rintro ⟨hs, hpair, hrest⟩
      exact ⟨⟨fun t ht => hrest t ht s (.inr rfl), hpair⟩, hs, fun t ht e he =>
        hrest t ht e (.inl he)⟩
    · rintro ⟨⟨hs, hpair⟩, hearlier, hrest⟩
      refine ⟨hearlier, hpair, fun t ht e he => ?_⟩
      obtain he | rfl := he
      · exact hrest t ht e he
      · exact hs t ht

/-- The sites of a registry have nothing in common. -/
theorem pairwise_apart (R : Registry) : R.sites.Pairwise Apart :=
  (conflict?_eq_none_iff.1 R.consistent).1

theorem ids_nodup (R : Registry) : (R.sites.map (·.id)).Nodup :=
  List.pairwise_map.2 (R.pairwise_apart.imp fun h => h.1)

/-! ## Finding sites -/

theorem get?_of_mem {R : Registry} {s : Site} (h : s ∈ R.sites) : R.get? s.id = some s := by
  cases hget : R.get? s.id with
  | none => exact absurd (List.find?_eq_none.1 hget s h) (by simp)
  | some t =>
    have hid : t.id = s.id := by simpa using List.find?_some hget
    by_contra hne
    have hst : t ≠ s := fun hts => hne (congrArg some hts)
    exact (R.pairwise_apart.forall (List.mem_of_find?_eq_some hget) h hst).1 hid

theorem get?_eq_some_iff {R : Registry} {id : String} {s : Site} :
    R.get? id = some s ↔ s ∈ R.sites ∧ s.id = id := by
  constructor
  · intro h
    exact ⟨List.mem_of_find?_eq_some h, by simpa using List.find?_some h⟩
  · rintro ⟨hm, rfl⟩
    exact get?_of_mem hm

theorem mem_of_resolve? {R : Registry} {name : String} {s : Site} (h : R.resolve? name = some s) :
    s ∈ R.sites :=
  List.mem_of_find?_eq_some h

theorem get?_of_bindingSite? {R : Registry} {name id : String}
    (h : R.bindingSite? name = some (.site id)) : ∃ s, R.get? id = some s := by
  unfold bindingSite? at h
  split_ifs at h
  · cases h
  · obtain ⟨s, hs, hid⟩ := Option.map_eq_some_iff.1 h
    unfold BindingSite.ofId at hid
    split_ifs at hid
    cases hid
    exact ⟨s, get?_of_mem (mem_of_resolve? hs)⟩

end Crosspost.Registry
