/-
  How registries are made.

  * `Site.Named s key`: the site is known under a spelling in lower case;
  * `Registry.Fits sites`: ids and spellings belong to one site each;
  * `Registry.exists_ofSites_iff`: **the sites that fit are those that make a registry**;
  * `Registry.resolve?_eq_some_iff`, `Registry.mem_aliases_iff`: what a registry knows about
    spellings;
  * `Registry.Alike R R'`: the registries look up alike, as those of the same sites do in
    whatever order (`Registry.alike_of_mem`).
-/
import Mathlib.Data.List.Pairwise
import Crosspost.Proofs.Site.Lookup
import Crosspost.Proofs.Text.Order

namespace Crosspost

/-- A site is known under a spelling: its id or one of its aliases, in lower case. -/
def Site.Named (s : Site) (key : String) : Prop :=
  ∃ name, (name = s.id ∨ name ∈ s.aliases) ∧ Text.lower name = key

theorem Site.mem_keys_iff {s : Site} {key : String} : key ∈ s.keys ↔ s.Named key := by
  simp only [keys, Named, List.mem_map, List.mem_cons]

namespace Registry

/-- Sites of which no two have an id or a spelling in common. -/
structure Fits (sites : List Site) : Prop where
  ids : (sites.map (·.id)).Nodup
  named : ∀ s ∈ sites, ∀ t ∈ sites, ∀ key, s.Named key → t.Named key → s = t

/-! ## Sites that fit -/

/-- Sites are apart from each other where they fit. -/
theorem pairwise_apart_iff {sites : List Site} : sites.Pairwise Apart ↔ Fits sites := by
  constructor
  · intro h
    refine ⟨List.pairwise_map.2 (h.imp fun hst => hst.1), fun s hs t ht key hk hk' => ?_⟩
    by_contra hne
    have hst : Apart s t := h.forall hs ht hne
    exact hst.2 key (Site.mem_keys_iff.2 hk') (Site.mem_keys_iff.2 hk)
  · intro h
    refine (List.pairwise_map.1 h.ids).imp_of_mem fun {s t} hs ht hid => ⟨hid, fun key hk hk' => ?_⟩
    have hst := h.named s hs t ht key (Site.mem_keys_iff.1 hk') (Site.mem_keys_iff.1 hk)
    exact hid (congrArg (·.id) hst)

theorem ofSites_eq_ok_iff {sites : List Site} {R : Registry} :
    ofSites sites = .ok R ↔ R.sites = sites := by
  unfold ofSites
  split
  · next e h =>
    refine ⟨nofun, ?_⟩
    rintro rfl
    rw [R.consistent] at h
    cases h
  · obtain ⟨sites', h'⟩ := R
    simp [eq_comm]

theorem fits (R : Registry) : Fits R.sites := pairwise_apart_iff.1 R.pairwise_apart

/-- **The sites that fit are those that make a registry.** -/
theorem exists_ofSites_iff {sites : List Site} : (∃ R, ofSites sites = .ok R) ↔ Fits sites := by
  constructor
  · rintro ⟨R, h⟩
    rw [← ofSites_eq_ok_iff.1 h]
    exact R.fits
  · intro h
    have hnone : conflict? [] sites = none :=
      conflict?_eq_none_iff.2 ⟨pairwise_apart_iff.2 h, by simp⟩
    exact ⟨⟨sites, hnone⟩, ofSites_eq_ok_iff.2 rfl⟩

theorem Fits.perm {sites sites' : List Site} (h : Fits sites) (hp : sites'.Perm sites) :
    Fits sites' := by
  refine ⟨(hp.map _).nodup_iff.2 h.ids, fun s hs t ht => ?_⟩
  exact h.named s (hp.subset hs) t (hp.subset ht)

/-! ## Looking up -/

variable {R R' : Registry} {name id key : String} {s : Site}

theorem named_of_resolve? (h : R.resolve? name = some s) :
    s.Named (Text.lower (Text.trim name)) := by
  have hfound := List.find?_some h
  exact Site.mem_keys_iff.1 (List.contains_iff_mem.1 hfound)

/-- A spelling stands for the one site that is known under it. -/
theorem resolve?_eq_some_iff : R.resolve? name = some s ↔
    s ∈ R.sites ∧ s.Named (Text.lower (Text.trim name)) := by
  refine ⟨fun h => ⟨mem_of_resolve? h, named_of_resolve? h⟩, ?_⟩
  rintro ⟨hs, hnamed⟩
  cases h : R.resolve? name with
  | none =>
    have hkey := List.find?_eq_none.1 h s hs
    exact absurd (List.contains_iff_mem.2 (Site.mem_keys_iff.2 hnamed)) hkey
  | some t =>
    rw [R.fits.named t (mem_of_resolve? h) s hs _ (named_of_resolve? h) hnamed]

theorem resolve?_eq_none_iff : R.resolve? name = none ↔
    ∀ s ∈ R.sites, ¬ s.Named (Text.lower (Text.trim name)) := by
  rw [Option.eq_none_iff_forall_ne_some]
  simp only [ne_eq, resolve?_eq_some_iff, not_and]

theorem has_iff : R.has id = true ↔ ∃ s ∈ R.sites, s.id = id := by
  simp [has, List.any_eq_true]

/-! ## Spellings -/

theorem nodup_eraseDups (names : List String) : names.eraseDups.Nodup := by
  induction h : names.length using Nat.strongRecOn generalizing names with
  | ind n ih =>
    cases names with
    | nil => exact List.nodup_nil
    | cons name names =>
      rw [List.eraseDups_cons, List.nodup_cons]
      have hlength : (names.filter fun b => !b == name).length < n := by
        have := List.length_filter_le (fun b => !b == name) names
        rw [List.length_cons] at h
        omega
      exact ⟨by simp, ih _ hlength _ rfl⟩

/-- The spellings of a registry are those under which its sites are known. -/
theorem mem_aliases_iff : key ∈ R.aliases ↔ ∃ s ∈ R.sites, s.Named key := by
  rw [aliases, (Text.sorted_perm _).mem_iff, List.mem_eraseDups, List.mem_flatMap]
  simp only [Site.mem_keys_iff]

theorem pairwise_aliases : R.aliases.Pairwise fun a b => Text.units a < Text.units b :=
  Text.pairwise_lt_sorted (nodup_eraseDups _)

/-! ## Other orders -/

/-- Registries that look up alike. -/
structure Alike (R R' : Registry) : Prop where
  resolve : ∀ name, R.resolve? name = R'.resolve? name
  get : ∀ id, R.get? id = R'.get? id

/-- Registries of the same sites look up alike. -/
theorem alike_of_mem (h : ∀ s, s ∈ R.sites ↔ s ∈ R'.sites) : Alike R R' := by
  constructor
  · intro name
    ext s
    rw [resolve?_eq_some_iff, resolve?_eq_some_iff, h]
  · intro id
    ext s
    rw [get?_eq_some_iff, get?_eq_some_iff, h]

theorem aliases_eq_of_mem (h : ∀ s, s ∈ R.sites ↔ s ∈ R'.sites) : R.aliases = R'.aliases := by
  refine Text.sorted_eq_of_perm ?_
  rw [List.perm_ext_iff_of_nodup (nodup_eraseDups _) (nodup_eraseDups _)]
  intro key
  simp only [List.mem_eraseDups, List.mem_flatMap, h]

end Registry

end Crosspost
