/-
  User names that were loaded.

  The table that a file gives is itself a file: under the ids of sites, names that need no
  trimming and that their sites accept. Loading it again finds nothing to change, and how the
  keys of the file were spelled is forgotten.

  * `Usernames.entries`: the object that holds user names;
  * `Usernames.Canonical`: what every loaded table is (`canonical_of_validate`), and what makes
    it load as it is (`Usernames.Canonical.validate_eq`);
  * `UsernameFile.respell`: another key for an entry;
  * `UsernameFile.load_canonical`: **loaded names load again as they are, and a key may be
    spelled in any way that names its site**.
-/
import Mathlib.Data.Set.List
import Mathlib.Logic.Equiv.Basic
import Crosspost.Proofs.Config.UsernameFiles
import Crosspost.Proofs.Json.Merging
import Crosspost.Proofs.Site.Construction
import Crosspost.Proofs.Site.Naming

namespace Crosspost

namespace CodePoints

theorem ofString_injective : Function.Injective ofString :=
  Function.LeftInverse.injective text_ofString

theorem trim_trim (ps : CodePoints) : ps.trim.trim = ps.trim := by
  have htrim : ∀ qs : CodePoints, qs.trim =
      (qs.dropWhile (CodePoint.has Crosspost.isBlank)).rdropWhile
        (CodePoint.has Crosspost.isBlank) := fun _ => rfl
  -- what is left starts as before the end was trimmed
  have hstart : ps.trim.dropWhile (CodePoint.has Crosspost.isBlank) = ps.trim := by
    rw [List.dropWhile_eq_self_iff]
    intro hpos hblank
    have hfront : ps.trim <+: ps.dropWhile (CodePoint.has Crosspost.isBlank) :=
      List.rdropWhile_prefix _ _
    rw [hfront.getElem hpos] at hblank
    exact List.dropWhile_get_zero_not _ _ _ hblank
  rw [htrim ps.trim, hstart, htrim ps]
  exact List.rdropWhile_idempotent _ _

end CodePoints

open UsernameFile

variable {R : Registry} {U V : Usernames}

namespace Usernames

/-- The entries of the object that holds user names. -/
def entries (U : Usernames) : List (CodePoints × Json) :=
  U.map fun u => (.ofString u.1, .string u.2)

theorem entries_injective :
    Function.Injective fun u : String × CodePoints => (CodePoints.ofString u.1, Json.string u.2) := by
  rintro ⟨id, name⟩ ⟨id', name'⟩ h
  obtain ⟨hid, hname⟩ := Prod.mk.inj h
  cases hname
  obtain rfl : id = id' := CodePoints.ofString_injective hid
  rfl

/-- Tables in which each id has one name and that agree on all ids hold the same. -/
theorem perm_of_get?_eq (hU : (U.map (·.1)).Nodup) (hV : (V.map (·.1)).Nodup)
    (h : ∀ id, U.get? id = V.get? id) : U.Perm V := by
  refine (List.perm_ext_iff_of_nodup (.of_map _ hU) (.of_map _ hV)).2 ?_
  rintro ⟨id, name⟩
  rw [← lookup_eq_some_iff_mem hU, ← lookup_eq_some_iff_mem hV]
  exact iff_of_eq (congrArg (· = some name) (h id))

theorem get?_eq_of_perm (hU : (U.map (·.1)).Nodup) (h : V.Perm U) (id : String) :
    V.get? id = U.get? id := by
  have hV : (V.map (·.1)).Nodup := (h.map _).nodup_iff.2 hU
  ext name
  rw [get?, get?, lookup_eq_some_iff_mem hV, lookup_eq_some_iff_mem hU, h.mem_iff]

/-- User names under the ids of sites, trimmed, that their sites accept. -/
structure Canonical (R : Registry) (U : Usernames) : Prop where
  nodup : (U.map (·.1)).Nodup
  ne_nil : U ≠ []
  named : ∀ u ∈ U, ∃ s ∈ R.sites, s.id = u.1 ∧ s.refusal? u.2.text = none
  trimmed : ∀ u ∈ U, u.2.trim = u.2 ∧ u.2 ≠ []

theorem Canonical.perm (h : Canonical R U) (hp : V.Perm U) : Canonical R V where
  nodup := (hp.map _).nodup_iff.2 h.nodup
  ne_nil hnil := h.ne_nil (List.nil_perm.1 (hnil ▸ hp))
  named u hu := h.named u (hp.mem_iff.1 hu)
  trimmed u hu := h.trimmed u (hp.mem_iff.1 hu)

end Usernames

/-- A file gives such user names. -/
theorem UsernameFile.canonical_of_validate (hids : ∀ s ∈ R.sites, s.id ≠ emptyKey) {value : Json}
    {loaded : LoadedUsernames} (h : validate R value = .ok loaded) :
    loaded.usernames.Canonical R := by
  cases value with
  | object entries =>
    obtain ⟨hv, rfl⟩ := validate_object_eq_ok_iff.1 h
    have hnodup := nodup_assigned hv.clean
    refine ⟨hnodup, ?_, ?_, ?_⟩
    · obtain ⟨⟨key, value⟩, hf, s, hs⟩ := hv.some
      obtain ⟨name, rfl, -⟩ := hv.texts _ hf
      refine List.ne_nil_of_mem (mem_assigned.2 ⟨hids s (mem_of_named? hs.2), (key, name.trim), ?_, s,
        hs.2, rfl, rfl⟩)
      exact mem_names.2 ⟨hs.1, name, hf, rfl⟩
    · rintro ⟨id, name⟩ hu
      obtain ⟨-, f, hf, s, hs, rfl, rfl⟩ := mem_assigned.1 hu
      exact ⟨s, mem_of_named? hs, rfl, hv.clean.accepted f hf s hs⟩
    · rintro ⟨id, name⟩ hu
      obtain ⟨-, ⟨key, name'⟩, hf, s, -, -, rfl⟩ := mem_assigned.1 hu
      obtain ⟨-, written, hwritten, rfl⟩ := mem_names.1 hf
      obtain ⟨name, hname, hne⟩ := hv.texts _ hwritten
      cases hname
      exact ⟨CodePoints.trim_trim written, hne⟩
  | null | bool | number | string | array => cases h

/-! ## Loading again -/

section
variable (hids : ∀ s ∈ R.sites, Text.trim s.id = s.id ∧ s.id ≠ emptyKey)
include hids

/-- A site is known under its own id. -/
theorem UsernameFile.names_id {s : Site} (hs : s ∈ R.sites) : Names R (.ofString s.id) s := by
  obtain ⟨htrim, hne⟩ := hids s hs
  refine ⟨?_, ?_⟩
  · rw [Naming.plain?_ofString, ne_eq, Option.some.injEq]
    exact hne
  · rw [named?, Naming.plain?_ofString, Option.bind_some, Registry.resolve?_eq_some_iff, htrim]
    exact ⟨hs, s.id, .inl rfl, rfl⟩

namespace Usernames.Canonical

theorem names_entry (h : U.Canonical R) {u : String × CodePoints} (hu : u ∈ U) :
    ∃ s, Names R (.ofString u.1) s ∧ s.id = u.1 ∧ s.refusal? u.2.text = none := by
  obtain ⟨s, hs, hid, hc⟩ := h.named u hu
  exact ⟨s, hid ▸ names_id hids hs, hid, hc⟩

theorem valid (h : U.Canonical R) : Valid R U.entries where
  texts f hf := by
    obtain ⟨u, hu, rfl⟩ := List.mem_map.1 hf
    obtain ⟨htrim, hne⟩ := h.trimmed u hu
    exact ⟨u.2, rfl, htrim.symm ▸ hne⟩
  some := by
    obtain ⟨u, hu⟩ := List.exists_mem_of_ne_nil U h.ne_nil
    obtain ⟨s, hs, -⟩ := h.names_entry hids hu
    exact ⟨_, List.mem_map_of_mem hu, s, hs⟩
  apart f hf g hg s hfs hgs := by
    obtain ⟨u, hu, rfl⟩ := List.mem_map.1 hf
    obtain ⟨v, hv, rfl⟩ := List.mem_map.1 hg
    obtain ⟨s', hs', hid', -⟩ := h.names_entry hids hu
    obtain ⟨t, ht, hid, -⟩ := h.names_entry hids hv
    obtain rfl := Option.some.inj (hs'.2.symm.trans hfs.2)
    obtain rfl := Option.some.inj (ht.2.symm.trans hgs.2)
    rw [← hid', ← hid]
  accepted key name s hf hs := by
    obtain ⟨u, hu, he⟩ := List.mem_map.1 hf
    obtain ⟨rfl, hname⟩ := Prod.mk.inj he
    cases hname
    obtain ⟨t, ht, -, hc⟩ := h.names_entry hids hu
    obtain rfl := Option.some.inj (ht.2.symm.trans hs.2)
    rw [(h.trimmed u hu).1, hc]

theorem names_entries (h : U.Canonical R) :
    UsernameFile.names U.entries = U.map fun u => (.ofString u.1, u.2) := by
  unfold UsernameFile.names entries
  rw [List.filterMap_map, ← List.filterMap_eq_map]
  refine List.filterMap_congr fun u hu => ?_
  obtain ⟨s, hs, -⟩ := h.names_entry hids hu
  simp [hs.1, (h.trimmed u hu).1]

theorem assigned_entries (h : U.Canonical R) : assigned R (UsernameFile.names U.entries) = U := by
  have hfound : (UsernameFile.names U.entries).filterMap (found? R) =
      U.map fun u => (u.1, u.1, u.2) := by
    rw [h.names_entries hids, List.filterMap_map, ← List.filterMap_eq_map]
    refine List.filterMap_congr fun u hu => ?_
    obtain ⟨s, hs, hid, -⟩ := h.names_entry hids hu
    simp [found?, hs.2, hid]
  have hkept : (U.map fun u => (u.1, u.1, u.2)).filter (·.1 != emptyKey) =
      U.map fun u => (u.1, u.1, u.2) := by
    refine List.filter_eq_self.2 fun e he => ?_
    obtain ⟨u, hu, rfl⟩ := List.mem_map.1 he
    obtain ⟨s, hs, hid, -⟩ := h.named u hu
    exact bne_iff_ne.2 (hid ▸ (hids s hs).2)
  rw [assigned, hfound, hkept, List.map_map]
  exact List.map_id' U

theorem ignored_entries (h : U.Canonical R) :
    (progress R (UsernameFile.names U.entries)).ignored = [] := by
  have hnone : ∀ f ∈ UsernameFile.names U.entries, ¬ (named? R f.1).isNone = true := by
    intro f hf
    rw [h.names_entries hids] at hf
    obtain ⟨u, hu, rfl⟩ := List.mem_map.1 hf
    obtain ⟨s, hs, -⟩ := h.names_entry hids hu
    simp [hs.2]
  rw [progress, List.filter_eq_nil_iff.2 hnone]
  rfl

/-- The object that holds such names gives them, in the order in which it is walked. -/
theorem validate_eq (h : U.Canonical R) : ∃ V : Usernames, V.Perm U ∧
    V.entries = Fields.ofEntries U.entries ∧
    validate R (.object U.entries) = .ok ⟨V, []⟩ := by
  have hnodup : (U.entries.map (·.1)).Nodup := by
    have hkeys : U.entries.map (·.1) = (U.map (·.1)).map CodePoints.ofString := by
      simp [entries]
    rw [hkeys]
    exact h.nodup.map CodePoints.ofString_injective
  have hfields : (Fields.ofEntries U.entries).Perm U.entries := Fields.ofEntries_perm hnodup
  -- the fields are the entries of a table
  obtain ⟨V, hV⟩ : ∃ V : Usernames, V.entries = Fields.ofEntries U.entries := by
    refine (Set.range_list_map _).ge fun f hf => ?_
    obtain ⟨u, -, hu⟩ := List.mem_map.1 (hfields.mem_iff.1 hf)
    exact ⟨u, hu⟩
  have hperm : V.Perm U := by
    rw [← hV] at hfields
    exact (List.map_perm_map_iff entries_injective).1 hfields
  have hcanonical := h.perm hperm
  refine ⟨V, hperm, hV, validate_object_eq_ok_iff.2 ⟨hV ▸ hcanonical.valid hids, ?_⟩⟩
  rw [← hV, hcanonical.assigned_entries hids, hcanonical.ignored_entries hids]

end Usernames.Canonical

end

/-! ## Other keys -/

namespace UsernameFile

/-- An entry with another key in the place of one. -/
def respell (key key' : CodePoints) (e : CodePoints × Json) : CodePoints × Json :=
  (if e.1 = key then key' else e.1, e.2)

variable {entries fields : List (CodePoints × Json)} {key key' : CodePoints} {s : Site}

/-- A key that is not there yet may take the place of another one in the fields. -/
theorem ofEntries_respell_perm (hnew : key' = key ∨ key' ∉ entries.map (·.1)) :
    (Fields.ofEntries (entries.map (respell key key'))).Perm
      ((Fields.ofEntries entries).map (respell key key')) := by
  have hswap : ∀ e : CodePoints × Json, (key' = key ∨ e.1 ≠ key') →
      respell key key' e = (Equiv.swap key key' e.1, e.2) := by
    intro e he
    rw [respell, Equiv.swap_apply_def]
    split_ifs with h h'
    · rfl
    · rw [he.resolve_right (not_not.2 h')] at h'
      exact absurd h' h
    · rfl
  have hentries : entries.map (respell key key') =
      entries.map fun e => (Equiv.swap key key' e.1, e.2) :=
    List.map_congr_left fun e he => hswap e
      (hnew.imp_right fun hnot hk => hnot (hk ▸ List.mem_map_of_mem he))
  have hfields : (Fields.ofEntries entries).map (respell key key') =
      (Fields.ofEntries entries).map fun e => (Equiv.swap key key' e.1, e.2) := by
    refine List.map_congr_left fun e he => hswap e (hnew.imp_right fun hnot hk => hnot ?_)
    rw [← (Fields.merges_ofEntries entries).mem_keys_iff, ← hk]
    exact List.mem_map_of_mem he
  rw [hentries, hfields]
  exact Fields.ofEntries_map_perm (Equiv.swap key key').injective entries

section
variable (hkey : Names R key s) (hkey' : Names R key' s)
include hkey hkey'

theorem names_respell {f : CodePoints × Json} {t : Site} :
    Names R (respell key key' f).1 t ↔ Names R f.1 t := by
  unfold respell
  split_ifs with hf
  · rw [hf]
    simp only [Names, hkey.2, hkey'.2, ne_eq, hkey.1, hkey'.1]
  · exact Iff.rfl

theorem Valid.respell (h : Valid R fields) : Valid R (fields.map (respell key key')) where
  texts f hf := by
    obtain ⟨g, hg, rfl⟩ := List.mem_map.1 hf
    exact h.texts g hg
  some := by
    obtain ⟨f, hf, t, ht⟩ := h.some
    exact ⟨_, List.mem_map_of_mem hf, t, (names_respell hkey hkey').2 ht⟩
  apart f hf g hg t hft hgt := by
    obtain ⟨f', hf', rfl⟩ := List.mem_map.1 hf
    obtain ⟨g', hg', rfl⟩ := List.mem_map.1 hg
    have hsame := h.apart f' hf' g' hg' t ((names_respell hkey hkey').1 hft)
      ((names_respell hkey hkey').1 hgt)
    simp only [UsernameFile.respell, hsame]
  accepted k name t hf ht := by
    obtain ⟨⟨k', value⟩, hf', he⟩ := List.mem_map.1 hf
    obtain ⟨rfl, rfl⟩ := Prod.mk.inj he
    exact h.accepted k' name t hf' ((names_respell hkey hkey').1 ht)

/-- The keys that name no site are the same, in the same order. -/
theorem unnamed_respell : unnamed R (Fields.ofEntries (entries.map (respell key key'))) =
    unnamed R (Fields.ofEntries entries) := by
  let q : CodePoints → Bool := fun k => k.plain? ≠ some emptyKey ∧ (named? R k).isNone
  have hunnamed : ∀ es : List (CodePoints × Json), unnamed R (Fields.ofEntries es) =
      (Fields.ofEntries (es.filter fun e => q e.1)).map (·.1) := by
    intro es
    rw [Fields.ofEntries_filter q, unnamed, List.filter_map]
    rfl
  have hq : q key = false := by simp [q, hkey.2]
  have hq' : q key' = false := by simp [q, hkey'.2]
  rw [hunnamed, hunnamed]
  congr 2
  induction entries with
  | nil => rfl
  | cons e entries ih =>
    by_cases he : e.1 = key
    · simp [respell, he, hq, hq', ih]
    · have hsame : respell key key' e = e := by simp [respell, he]
      rw [List.map_cons, hsame, List.filter_cons, List.filter_cons, ih]

/-- A key may be spelled in another way that names its site. -/
theorem validate_respell {loaded : LoadedUsernames} (hmem : key ∈ entries.map (·.1))
    (h : validate R (.object entries) = .ok loaded) : ∃ other : Usernames,
      validate R (.object (entries.map (respell key key'))) = .ok ⟨other, loaded.ignoredKeys⟩ ∧
        other.Perm loaded.usernames := by
  obtain ⟨hv, rfl⟩ := validate_object_eq_ok_iff.1 h
  have hkeys : ∀ {k}, k ∈ entries.map (·.1) → ∃ f ∈ Fields.ofEntries entries, f.1 = k := fun hk =>
    List.mem_map.1 ((Fields.merges_ofEntries entries).mem_keys_iff.2 hk)
  have hnew : key' = key ∨ key' ∉ entries.map (·.1) := by
    rw [or_iff_not_imp_right, not_not]
    intro hmem'
    obtain ⟨f, hf, rfl⟩ := hkeys hmem
    obtain ⟨g, hg, rfl⟩ := hkeys hmem'
    exact hv.apart g hg f hf s hkey' hkey
  have hperm := ofEntries_respell_perm hnew
  have hv' := (hv.respell hkey hkey').perm hperm
  have hsame : ∀ id, (assigned R (names (Fields.ofEntries (entries.map (respell key key'))))).get? id =
      (assigned R (names (Fields.ofEntries entries))).get? id := by
    intro id
    ext name
    rw [get?_assigned_eq_some_iff hv', get?_assigned_eq_some_iff hv]
    refine and_congr_right fun _ => ?_
    constructor
    · rintro ⟨k, written, t, hf, ht, hid⟩
      obtain ⟨⟨k', value⟩, hf', he⟩ := List.mem_map.1 (hperm.mem_iff.1 hf)
      obtain ⟨rfl, rfl⟩ := Prod.mk.inj he
      exact ⟨k', written, t, hf', (names_respell hkey hkey').1 ht, hid⟩
    · rintro ⟨k, written, t, hf, ht, hid⟩
      exact ⟨_, written, t, hperm.mem_iff.2 (List.mem_map_of_mem hf),
        (names_respell hkey hkey').2 ht, hid⟩
  refine ⟨_, validate_object_eq_ok_iff.2 ⟨hv', ?_⟩, Usernames.perm_of_get?_eq
    (nodup_assigned hv'.clean) (nodup_assigned hv.clean) hsame⟩
  rw [ignored_names hv'.texts, ignored_names hv.texts, unnamed_respell hkey hkey']

end

theorem load_eq_ok_iff {value : Json} {loaded : LoadedUsernames} :
    load R value = .ok loaded ↔ validate R value = .ok loaded := by
  unfold load
  cases validate R value with
  | ok loaded' => simp [Except.mapError]
  | error issues => simp [Except.mapError]

/-- **Loaded names load again as they are, and a key may be spelled in any way that names its
    site.** Loaded again, the names are in the order in which an object with them is walked. -/
theorem load_canonical (R : Registry)
    (hids : ∀ s ∈ R.sites, Text.trim s.id = s.id ∧ s.id ≠ emptyKey) (value : Json)
    (loaded : LoadedUsernames) (h : load R value = .ok loaded) :
    (∃ again : Usernames, load R (.object loaded.usernames.entries) = .ok ⟨again, []⟩ ∧
      again.entries = Fields.ofEntries loaded.usernames.entries ∧
      again.Perm loaded.usernames ∧ ∀ id, again.get? id = loaded.usernames.get? id) ∧
    ∀ (entries : List (CodePoints × Json)) (key key' : CodePoints) (s : Site),
      value = .object entries → key ∈ entries.map (·.1) → Names R key s → Names R key' s →
      ∃ other : Usernames,
        load R (.object (entries.map (respell key key'))) = .ok ⟨other, loaded.ignoredKeys⟩ ∧
        other.Perm loaded.usernames ∧ ∀ id, other.get? id = loaded.usernames.get? id := by
  simp only [load_eq_ok_iff] at h ⊢
  have hcanonical := canonical_of_validate (fun s hs => (hids s hs).2) h
  constructor
  · obtain ⟨again, hperm, hentries, hagain⟩ := hcanonical.validate_eq hids
    exact ⟨again, hagain, hentries, hperm, Usernames.get?_eq_of_perm hcanonical.nodup hperm⟩
  · rintro entries key key' s rfl hmem hkey hkey'
    obtain ⟨other, hother, hperm⟩ := validate_respell hkey hkey' hmem h
    exact ⟨other, hother, hperm, Usernames.get?_eq_of_perm hcanonical.nodup hperm⟩

/-- A key in another letter case and with white space around it. -/
theorem load_canonical_spelled :
    let entries : List (CodePoints × Json) :=
      [(.ofString "zzz", .string (.ofString "y")), (.ofString "weasyl", .string (.ofString " z ")),
        (.ofString "fa", .string (.ofString "x"))]
    ∃ loaded, load .builtin (.object entries) = .ok loaded ∧
      (∃ again : Usernames, load .builtin (.object loaded.usernames.entries) = .ok ⟨again, []⟩ ∧
        again.Perm loaded.usernames) ∧
      ∃ other : Usernames, load .builtin
          (.object (entries.map (respell (.ofString "fa") (.ofString " FurAffinity\n")))) =
            .ok ⟨other, ["zzz"]⟩ ∧
        other.get? "furaffinity" = some (.ofString "x") := by
  intro entries
  have hids : ∀ s ∈ Registry.builtin.sites, Text.trim s.id = s.id ∧ s.id ≠ emptyKey := by
    decide +kernel
  have hok : load .builtin (.object entries) =
      .ok ⟨[("weasyl", .ofString "z"), ("furaffinity", .ofString "x")], ["zzz"]⟩ := by
    decide +kernel
  obtain ⟨⟨again, hagain, -, hperm, -⟩, hrespell⟩ :=
    load_canonical .builtin hids (.object entries) _ hok
  obtain ⟨other, hother, -, hget⟩ := hrespell entries (.ofString "fa") (.ofString " FurAffinity\n")
    Site.furaffinity rfl (by decide +kernel) ⟨by decide +kernel, by rfl⟩
    ⟨by decide +kernel, by rfl⟩
  exact ⟨_, hok, ⟨again, hagain, hperm⟩, other, hother, hget "furaffinity"⟩

end UsernameFile

end Crosspost
