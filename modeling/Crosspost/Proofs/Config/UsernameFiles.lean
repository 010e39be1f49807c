/-
  User names from files.

  A file is read field by field, and what is found depends on the fields before. That it is
  accepted does not depend on their order.

  * `UsernameFile.Names`: a key names a site;
  * `UsernameFile.Added`: what one more field does to a progress;
  * `UsernameFile.issues_foldl_eq_nil_iff`: no field is at fault exactly if the fields are
    clean, each with a name that its site accepts and with a site of its own;
  * `UsernameFile.validate_valid`: **a file is accepted exactly if it is valid, and gives each
    site that it names the name in its field**.
-/
import Mathlib.Data.List.DropRight
import Mathlib.Data.List.Induction
import Mathlib.Data.List.Pairwise
import Crosspost.Config.UsernameFile
import Crosspost.Proofs.Json.Fields
import Crosspost.Proofs.Results
import Crosspost.Proofs.Site.Lookup

namespace Crosspost

theorem CodePoints.trim_eq_nil_iff {ps : CodePoints} : ps.trim = [] ↔ ps.isBlank = true := by
  have hblank : ∀ qs : CodePoints, qs.dropWhile (CodePoint.has Crosspost.isBlank) = [] ↔
      ∀ q ∈ qs, q.has Crosspost.isBlank = true := fun qs => List.dropWhile_eq_nil_iff
  rw [trim, List.reverse_eq_nil_iff, hblank, isBlank, List.all_eq_true]
  constructor
  · intro h p hp
    rw [← List.takeWhile_append_dropWhile (p := CodePoint.has Crosspost.isBlank) (l := ps),
      List.mem_append] at hp
    rcases hp with hp | hp
    · exact List.mem_takeWhile_imp hp
    · exact h p (List.mem_reverse.2 hp)
  · intro h p hp
    exact h p ((List.dropWhile_sublist _).subset (List.mem_reverse.1 hp))

namespace UsernameFile

variable {R : Registry} {p : Progress} {fs : List (CodePoints × CodePoints)}

/-! ## Fields in turn -/

/-- The site that the text of a key stands for. -/
def named? (R : Registry) (key : CodePoints) : Option Site := key.plain?.bind R.resolve?

theorem mem_of_named? {key : CodePoints} {s : Site} (h : named? R key = some s) : s ∈ R.sites := by
  obtain ⟨name, -, hname⟩ := Option.bind_eq_some_iff.1 h
  exact Registry.mem_of_resolve? hname

/-- Sites are told apart by their ids. -/
theorem named?_inj {key key' : CodePoints} {s s' : Site} (h : named? R key = some s)
    (h' : named? R key' = some s') (hid : s.id = s'.id) : s = s' := by
  have hget := Registry.get?_of_mem (mem_of_named? h)
  rw [hid, Registry.get?_of_mem (mem_of_named? h'), Option.some.injEq] at hget
  exact hget.symm

/-- What one more field does to a progress. -/
inductive Added (R : Registry) (p : Progress) (key name : CodePoints) : Progress → Prop
  | ignored : named? R key = none →
      Added R p key name { p with ignored := p.ignored ++ [key.text] }
  | duplicate {s : Site} {earlier : String × CodePoints} : named? R key = some s →
      p.found.lookup s.id = some earlier →
      Added R p key name { p with issues := p.issues ++ [.duplicateSite key.text s.id earlier.1] }
  | refused {s : Site} {reason : String} : named? R key = some s →
      p.found.lookup s.id = none → s.refusal? name.text = some reason →
      Added R p key name { p with issues := p.issues ++ [.refusedName key.text reason] }
  | found {s : Site} : named? R key = some s → p.found.lookup s.id = none →
      s.refusal? name.text = none →
      Added R p key name { p with found := p.found ++ [(s.id, key.text, name)] }

theorem added (R : Registry) (p : Progress) (key name : CodePoints) :
    Added R p key name (p.add R (key, name)) := by
  unfold Progress.add
  cases hs : named? R key with
  | none =>
    simp only [named?] at hs
    simp only [hs]
    exact .ignored hs
  | some s =>
    have hs' : key.plain?.bind R.resolve? = some s := hs
    simp only [hs']
    cases hl : p.found.lookup s.id with
    | some earlier => exact .duplicate hs hl
    | none =>
      cases hc : s.refusal? name.text with
      | some reason =>
        exact .refused hs hl hc
      | none =>
        exact .found hs hl hc

/-- Each name is one that its site accepts, and no two fields name one site. -/
structure Clean (R : Registry) (fs : List (CodePoints × CodePoints)) : Prop where
  accepted : ∀ f ∈ fs, ∀ s, named? R f.1 = some s → s.refusal? f.2.text = none
  apart : fs.Pairwise fun f g => ∀ s, named? R f.1 = some s → named? R g.1 ≠ some s

theorem clean_concat {f : CodePoints × CodePoints} : Clean R (fs ++ [f]) ↔
    Clean R fs ∧ (∀ s, named? R f.1 = some s → s.refusal? f.2.text = none) ∧
      ∀ g ∈ fs, ∀ s, named? R g.1 = some s → named? R f.1 ≠ some s := by
  constructor
  · rintro ⟨ha, hp⟩
    rw [List.pairwise_append] at hp
    exact ⟨⟨fun g hg => ha g (List.mem_append_left _ hg), hp.1⟩, ha f (by simp),
      fun g hg => hp.2.2 g hg f (by simp)⟩
  · rintro ⟨⟨ha, hp⟩, hf, hapart⟩
    refine ⟨fun g hg => ?_, List.pairwise_append.2 ⟨hp, List.pairwise_singleton _ _, ?_⟩⟩
    · rcases List.mem_append.1 hg with hg | hg
      · exact ha g hg
      · exact List.mem_singleton.1 hg ▸ hf
    · exact fun g hg f' hf' => List.mem_singleton.1 hf' ▸ hapart g hg

/-- What a field adds to the sites found. -/
def found? (R : Registry) (f : CodePoints × CodePoints) : Option (String × String × CodePoints) :=
  (named? R f.1).map fun s => (s.id, f.1.text, f.2)

/-- The progress through clean fields. -/
def progress (R : Registry) (fs : List (CodePoints × CodePoints)) : Progress where
  found := fs.filterMap (found? R)
  ignored := (fs.filter fun f => (named? R f.1).isNone).map (·.1.text)

theorem lookup_found_eq_none_iff {key : CodePoints} {s : Site} (hs : named? R key = some s) :
    (fs.filterMap (found? R)).lookup s.id = none ↔ ∀ g ∈ fs, named? R g.1 ≠ some s := by
  simp only [List.lookup_eq_none_iff, List.mem_filterMap, found?, Option.map_eq_some_iff]
  constructor
  · intro h g hg hgs
    simpa using h _ ⟨g, hg, s, hgs, rfl⟩
  · rintro h _ ⟨g, hg, s', hs', rfl⟩
    simp only [bne_iff_ne, ne_eq]
    exact fun hid => h g hg (named?_inj hs hs' hid ▸ hs')

theorem foldl_add_of_clean (h : Clean R fs) : fs.foldl (Progress.add R) {} = progress R fs := by
  induction fs using List.reverseRecOn with
  | nil => rfl
  | append_singleton fs f ih =>
    obtain ⟨hfs, hf, hapart⟩ := clean_concat.1 h
    obtain ⟨key, name⟩ := f
    rw [List.foldl_append, List.foldl_cons, List.foldl_nil, ih hfs]
    have hadded := added R (progress R fs) key name
    generalize (progress R fs).add R (key, name) = next at hadded
    cases hadded with
    | ignored hs => simp [progress, found?, hs]
    | duplicate hs hl =>
      have hnone := (lookup_found_eq_none_iff hs).2 fun g hg hgs => hapart g hg _ hgs hs
      rw [progress, hnone] at hl
      cases hl
    | refused hs _ hc =>
      rw [hf _ hs] at hc
      cases hc
    | found hs _ _ => simp [progress, found?, hs]

/-- Problems stay. -/
theorem Added.issues_subset {key name : CodePoints} {next : Progress} (h : Added R p key name next) :
    p.issues ⊆ next.issues := by
  cases h <;> simp

theorem issues_subset_foldl : p.issues ⊆ (fs.foldl (Progress.add R) p).issues := by
  induction fs generalizing p with
  | nil => exact List.Subset.refl _
  | cons f fs ih => exact List.Subset.trans (added R p f.1 f.2).issues_subset ih

/-- **No field is at fault exactly if the fields are clean.** -/
theorem issues_foldl_eq_nil_iff :
    (fs.foldl (Progress.add R) {}).issues = [] ↔ Clean R fs := by
  refine ⟨fun h => ?_, fun h => by rw [foldl_add_of_clean h]; rfl⟩
  induction fs using List.reverseRecOn with
  | nil => exact ⟨by simp, .nil⟩
  | append_singleton fs f ih =>
    obtain ⟨key, name⟩ := f
    rw [List.foldl_append, List.foldl_cons, List.foldl_nil] at h
    have hadded := added R (fs.foldl (Progress.add R) {}) key name
    have hissues := hadded.issues_subset
    rw [h] at hissues
    have hfs : Clean R fs := ih (List.subset_nil.1 hissues)
    rw [foldl_add_of_clean hfs] at h hadded
    generalize (progress R fs).add R (key, name) = next at h hadded
    refine clean_concat.2 ⟨hfs, ?_⟩
    cases hadded with
    | ignored hs => simp [hs]
    | duplicate | refused => simp at h
    | found hs hl hc =>
      refine ⟨fun s' hs' => ?_, fun g hg s' hgs hs' => ?_⟩
      · rw [hs, Option.some.injEq] at hs'
        exact hs' ▸ hc
      · rw [hs, Option.some.injEq] at hs'
        exact (lookup_found_eq_none_iff hs).1 hl g hg (hs' ▸ hgs)

/-! ## Well-formed fields -/

variable {fields : List (CodePoints × Json)} {entries : List (CodePoints × Json)}

/-- A key names a site. The key that never holds a name names none. -/
def Names (R : Registry) (key : CodePoints) (site : Site) : Prop :=
  key.plain? ≠ some emptyKey ∧ named? R key = some site

theorem filterMap_formIssue?_eq_nil_iff : fields.filterMap formIssue? = [] ↔
    ∀ f ∈ fields, ∃ name : CodePoints, f.2 = .string name ∧ name.trim ≠ [] := by
  rw [List.filterMap_eq_nil_iff]
  refine forall_congr' fun f => forall_congr' fun _ => ?_
  obtain ⟨key, value⟩ := f
  cases value with
  | string name => simp [formIssue?, CodePoints.trim_eq_nil_iff]
  | null | bool | number | array | object => simp [formIssue?]

theorem mem_names {key name : CodePoints} : (key, name) ∈ names fields ↔
    key.plain? ≠ some emptyKey ∧ ∃ written : CodePoints, (key, .string written) ∈ fields ∧
      name = written.trim := by
  unfold names
  rw [List.mem_filterMap]
  constructor
  · rintro ⟨⟨k, value⟩, hf, h⟩
    cases value with
    | string written =>
      simp only [] at h
      split_ifs at h with hk
      cases h
      exact ⟨hk, written, hf, rfl⟩
    | null | bool | number | array | object => cases h
  · rintro ⟨hk, written, hf, rfl⟩
    exact ⟨_, hf, by simp [hk]⟩

theorem keys_names
    (ht : ∀ f ∈ fields, ∃ name : CodePoints, f.2 = .string name ∧ name.trim ≠ []) :
    (names fields).map (·.1) =
      (fields.map (·.1)).filter fun key => key.plain? ≠ some emptyKey := by
  unfold names
  induction fields with
  | nil => rfl
  | cons f fields ih =>
    obtain ⟨key, value⟩ := f
    obtain ⟨name, hname, -⟩ := ht (key, value) List.mem_cons_self
    have ih := ih fun g hg => ht g (List.mem_cons_of_mem _ hg)
    obtain rfl : value = .string name := hname
    by_cases hk : key.plain? = some emptyKey <;> simp_all

/-! ## Files -/

/-- What a file must hold. -/
structure Valid (R : Registry) (fields : List (CodePoints × Json)) : Prop where
  /-- Every value is a text in which there is more than white space. -/
  texts : ∀ f ∈ fields, ∃ name : CodePoints, f.2 = .string name ∧ name.trim ≠ []
  /-- Some key names a site. -/
  some : ∃ f ∈ fields, ∃ s, Names R f.1 s
  /-- Different keys do not name one site. -/
  apart : ∀ f ∈ fields, ∀ g ∈ fields, ∀ s, Names R f.1 s → Names R g.1 s → f.1 = g.1
  /-- Every site accepts the name in its field. -/
  accepted : ∀ (key name : CodePoints) s, (key, .string name) ∈ fields → Names R key s →
    s.refusal? name.trim.text = none

theorem clean_names_iff (hn : (fields.map (·.1)).Nodup)
    (ht : ∀ f ∈ fields, ∃ name : CodePoints, f.2 = .string name ∧ name.trim ≠ []) :
    Clean R (names fields) ↔
      (∀ f ∈ fields, ∀ g ∈ fields, ∀ s, Names R f.1 s → Names R g.1 s → f.1 = g.1) ∧
      ∀ (key name : CodePoints) s, (key, .string name) ∈ fields → Names R key s →
        s.refusal? name.trim.text = none := by
  have hmem : ∀ f ∈ fields, f.1.plain? ≠ some emptyKey → ∃ name, (f.1, name) ∈ names fields := by
    rintro ⟨key, value⟩ hf hk
    obtain ⟨name, rfl, -⟩ := ht _ hf
    exact ⟨name.trim, mem_names.2 ⟨hk, name, hf, rfl⟩⟩
  constructor
  · rintro ⟨haccepted, hapart⟩
    constructor
    · intro f hf g hg s hfs hgs
      obtain ⟨n, hfn⟩ := hmem f hf hfs.1
      obtain ⟨m, hgm⟩ := hmem g hg hgs.1
      by_contra hne
      have : Std.Symm fun a b : CodePoints × CodePoints =>
          ∀ s, named? R a.1 = some s → named? R b.1 ≠ some s := ⟨fun a b h s hb ha => h s ha hb⟩
      exact hapart.forall hfn hgm (fun h => hne (Prod.mk.inj h).1) s hfs.2 hgs.2
    · intro key name s hf hs
      exact haccepted _ (mem_names.2 ⟨hs.1, name, hf, rfl⟩) s hs.2
  · rintro ⟨hapart, haccepted⟩
    constructor
    · rintro ⟨key, name⟩ hf s hs
      obtain ⟨hk, written, hwritten, rfl⟩ := mem_names.1 hf
      exact haccepted key written s hwritten ⟨hk, hs⟩
    · have hnodup : ((names fields).map (·.1)).Nodup := keys_names ht ▸ hn.filter _
      refine (List.pairwise_map.1 hnodup).imp_of_mem fun {f g} hf hg hne s hfs hgs => ?_
      obtain ⟨hfk, _, hf, -⟩ := mem_names.1 hf
      obtain ⟨hgk, _, hg, -⟩ := mem_names.1 hg
      exact hne (hapart _ hf _ hg s ⟨hfk, hfs⟩ ⟨hgk, hgs⟩)

/-- The names of the sites found; one site never has a name. -/
def assigned (R : Registry) (fs : List (CodePoints × CodePoints)) : Usernames :=
  ((fs.filterMap (found? R)).filter (·.1 != emptyKey)).map fun (id, _, name) => (id, name)

theorem mem_assigned {id : String} {name : CodePoints} : (id, name) ∈ assigned R fs ↔
    id ≠ emptyKey ∧ ∃ f ∈ fs, ∃ s, named? R f.1 = some s ∧ s.id = id ∧ f.2 = name := by
  unfold assigned
  rw [List.mem_map]
  constructor
  · rintro ⟨⟨id', key, name'⟩, he, h⟩
    cases h
    rw [List.mem_filter, List.mem_filterMap] at he
    obtain ⟨⟨f, hf, hentry⟩, hid⟩ := he
    obtain ⟨s, hs, hentry⟩ := Option.map_eq_some_iff.1 hentry
    cases hentry
    exact ⟨by simpa using hid, f, hf, s, hs, rfl, rfl⟩
  · rintro ⟨hid, f, hf, s, hs, rfl, rfl⟩
    refine ⟨(s.id, f.1.text, f.2), List.mem_filter.2 ⟨List.mem_filterMap.2 ⟨f, hf, ?_⟩, ?_⟩, rfl⟩
    · simp [found?, hs]
    · simpa using hid

theorem nodup_assigned (h : Clean R fs) : ((assigned R fs).map (·.1)).Nodup := by
  have hfound : ((fs.filterMap (found? R)).map (·.1)).Nodup := by
    rw [List.Nodup, List.pairwise_map, List.pairwise_filterMap]
    refine h.apart.imp fun {f g} hfg e he e' he' hid => ?_
    obtain ⟨s, hs, rfl⟩ := Option.map_eq_some_iff.1 he
    obtain ⟨s', hs', rfl⟩ := Option.map_eq_some_iff.1 he'
    exact hfg s hs (named?_inj hs hs' hid ▸ hs')
  rw [assigned, List.map_map]
  exact (List.filter_sublist.map _).nodup hfound

theorem result_progress : (progress R fs).result =
    if fs.filterMap (found? R) = [] then .error [.noSites]
    else .ok ⟨assigned R fs, (progress R fs).ignored⟩ := by
  unfold Progress.result
  simp only [progress, List.isEmpty_nil, Bool.not_true, Bool.false_eq_true, if_false,
    List.isEmpty_iff]
  split_ifs <;> rfl

theorem filterMap_found?_ne_nil_iff
    (ht : ∀ f ∈ fields, ∃ name : CodePoints, f.2 = .string name ∧ name.trim ≠ []) :
    (names fields).filterMap (found? R) ≠ [] ↔ ∃ f ∈ fields, ∃ s, Names R f.1 s := by
  rw [Ne, List.filterMap_eq_nil_iff]
  push Not
  constructor
  · rintro ⟨⟨key, name⟩, hf, he⟩
    obtain ⟨hk, written, hf, -⟩ := mem_names.1 hf
    obtain ⟨e, he⟩ := Option.ne_none_iff_exists'.1 he
    obtain ⟨s, hs, -⟩ := Option.map_eq_some_iff.1 he
    exact ⟨_, hf, s, hk, hs⟩
  · rintro ⟨⟨key, value⟩, hf, s, hk, hs⟩
    obtain ⟨name, rfl, -⟩ := ht _ hf
    refine ⟨_, mem_names.2 ⟨hk, name, hf, rfl⟩, ?_⟩
    have hs : named? R key = some s := hs
    simp [found?, hs]

/-- An object is read for its sites if every field is well-formed. -/
theorem validate_object (R : Registry) (entries : List (CodePoints × Json)) :
    validate R (.object entries) =
      if (Fields.ofEntries entries).filterMap formIssue? = [] then
        ((names (Fields.ofEntries entries)).foldl (Progress.add R) {}).result
      else .error ((Fields.ofEntries entries).filterMap formIssue?) := by
  simp only [validate]
  cases (Fields.ofEntries entries).filterMap formIssue? <;> rfl

/-- A file is accepted exactly if it is valid. -/
theorem validate_object_eq_ok_iff {loaded : LoadedUsernames} :
    validate R (.object entries) = .ok loaded ↔
      Valid R (Fields.ofEntries entries) ∧ loaded =
        ⟨assigned R (names (Fields.ofEntries entries)),
          (progress R (names (Fields.ofEntries entries))).ignored⟩ := by
  have hn := Fields.nodup_ofEntries entries
  rw [validate_object]
  generalize Fields.ofEntries entries = fields at hn
  by_cases hform : fields.filterMap formIssue? = []
  · have ht := filterMap_formIssue?_eq_nil_iff.1 hform
    rw [if_pos hform]
    constructor
    · intro h
      have hclean : Clean R (names fields) := by
        rw [← issues_foldl_eq_nil_iff]
        by_contra hne
        simp [Progress.result, hne] at h
      rw [foldl_add_of_clean hclean, result_progress] at h
      split_ifs at h with hsome
      obtain ⟨hapart, haccepted⟩ := (clean_names_iff hn ht).1 hclean
      cases h
      exact ⟨⟨ht, (filterMap_found?_ne_nil_iff ht).1 hsome, hapart, haccepted⟩, rfl⟩
    · rintro ⟨hv, rfl⟩
      rw [foldl_add_of_clean ((clean_names_iff hn ht).2 ⟨hv.apart, hv.accepted⟩), result_progress,
        if_neg ((filterMap_found?_ne_nil_iff ht).2 hv.some)]
  · rw [if_neg hform]
    refine ⟨fun h => by simp at h, fun h => ?_⟩
    exact absurd (filterMap_formIssue?_eq_nil_iff.2 h.1.texts) hform

theorem Valid.clean (h : Valid R (Fields.ofEntries entries)) :
    Clean R (names (Fields.ofEntries entries)) :=
  (clean_names_iff (Fields.nodup_ofEntries entries) h.texts).2 ⟨h.apart, h.accepted⟩

/-- A file may list its fields in any order. -/
theorem Valid.perm {fields' : List (CodePoints × Json)} (h : Valid R fields)
    (hp : fields'.Perm fields) : Valid R fields' where
  texts f hf := h.texts f (hp.mem_iff.1 hf)
  some := by
    obtain ⟨f, hf, hs⟩ := h.some
    exact ⟨f, hp.mem_iff.2 hf, hs⟩
  apart f hf g hg := h.apart f (hp.mem_iff.1 hf) g (hp.mem_iff.1 hg)
  accepted key name s hf := h.accepted key name s (hp.mem_iff.1 hf)

/-- The name that a valid file gives a site. -/
theorem get?_assigned_eq_some_iff (h : Valid R (Fields.ofEntries entries)) {id : String}
    {name : CodePoints} :
    (assigned R (names (Fields.ofEntries entries))).get? id = some name ↔
      id ≠ emptyKey ∧ ∃ (key written : CodePoints) (s : Site),
        (key, .string written) ∈ Fields.ofEntries entries ∧ Names R key s ∧ s.id = id ∧
          name = written.trim := by
  rw [Usernames.get?, lookup_eq_some_iff_mem (nodup_assigned h.clean), mem_assigned]
  refine and_congr_right fun _ => ?_
  constructor
  · rintro ⟨⟨key, n⟩, hf, s, hs, hid, rfl⟩
    obtain ⟨hk, written, hwritten, rfl⟩ := mem_names.1 hf
    exact ⟨key, written, s, hwritten, ⟨hk, hs⟩, hid, rfl⟩
  · rintro ⟨key, written, s, hf, ⟨hk, hs⟩, hid, rfl⟩
    exact ⟨(key, written.trim), mem_names.2 ⟨hk, written, hf, rfl⟩, s, hs, hid, rfl⟩

/-- A site accepts the name that a file gives it. -/
theorem refusal?_of_validate {value : Json} {loaded : LoadedUsernames} {s : Site}
    {name : CodePoints} (h : validate R value = .ok loaded) (hs : s ∈ R.sites)
    (hname : loaded.usernames.get? s.id = some name) : s.refusal? name.text = none := by
  cases value with
  | object entries =>
    obtain ⟨hv, rfl⟩ := validate_object_eq_ok_iff.1 h
    obtain ⟨-, key, written, s', hf, hnames, hid, rfl⟩ := (get?_assigned_eq_some_iff hv).1 hname
    have hs' : R.get? s.id = some s' := hid ▸ Registry.get?_of_mem (mem_of_named? hnames.2)
    rw [Registry.get?_of_mem hs] at hs'
    cases hs'
    exact hv.accepted key written s hf hnames
  | null | bool | number | string | array => cases h

/-- The keys that name no site, in the order of the fields. -/
def unnamed (R : Registry) (fields : List (CodePoints × Json)) : List CodePoints :=
  (fields.map (·.1)).filter fun key => key.plain? ≠ some emptyKey ∧ (named? R key).isNone

theorem ignored_names
    (ht : ∀ f ∈ fields, ∃ name : CodePoints, f.2 = .string name ∧ name.trim ≠ []) :
    (progress R (names fields)).ignored = (unnamed R fields).map CodePoints.text := by
  have hkeys : ((names fields).filter fun f => (named? R f.1).isNone).map (·.1) =
      ((names fields).map (·.1)).filter fun key => (named? R key).isNone := by
    rw [List.filter_map]
    rfl
  have hunnamed : unnamed R fields =
      ((names fields).map (·.1)).filter fun key => (named? R key).isNone := by
    rw [keys_names ht, List.filter_filter, unnamed]
    refine List.filter_congr fun key _ => ?_
    cases named? R key <;> simp
  rw [hunnamed, ← hkeys, List.map_map]
  rfl

/-- **A file is accepted exactly if it is valid, and gives each site that it names the name in
    its field**, in whatever order the fields are. Nothing is kept for a site of which the id
    is the key that never holds a name. -/
theorem validate_valid (R : Registry) (value : Json) :
    ((∃ loaded, validate R value = .ok loaded) ↔
      ∃ entries, value = .object entries ∧ Valid R (Fields.ofEntries entries)) ∧
    ∀ entries loaded, value = .object entries → validate R value = .ok loaded →
      (∀ id name, loaded.usernames.get? id = some name ↔
        id ≠ emptyKey ∧ ∃ (key written : CodePoints) (s : Site),
          (key, .string written) ∈ Fields.ofEntries entries ∧ Names R key s ∧ s.id = id ∧
            name = written.trim) ∧
      (loaded.usernames.map (·.1)).Nodup ∧
      loaded.ignoredKeys = (unnamed R (Fields.ofEntries entries)).map CodePoints.text ∧
      ∀ entries', (Fields.ofEntries entries').Perm (Fields.ofEntries entries) →
        ∃ loaded', validate R (.object entries') = .ok loaded' ∧
          ∀ id, loaded'.usernames.get? id = loaded.usernames.get? id := by
  constructor
  · constructor
    · rintro ⟨loaded, h⟩
      cases value with
      | object entries => exact ⟨entries, rfl, (validate_object_eq_ok_iff.1 h).1⟩
      | null | bool | number | string | array => cases h
    · rintro ⟨entries, rfl, hv⟩
      exact ⟨_, validate_object_eq_ok_iff.2 ⟨hv, rfl⟩⟩
  · rintro entries loaded rfl h
    obtain ⟨hv, rfl⟩ := validate_object_eq_ok_iff.1 h
    refine ⟨fun id name => get?_assigned_eq_some_iff hv, nodup_assigned hv.clean,
      ignored_names hv.texts, fun entries' hp => ?_⟩
    have hv' := hv.perm hp
    refine ⟨_, validate_object_eq_ok_iff.2 ⟨hv', rfl⟩, fun id => Option.ext fun name => ?_⟩
    rw [get?_assigned_eq_some_iff hv', get?_assigned_eq_some_iff hv]
    simp only [hp.mem_iff]

/-- Keys may be spelled in any way that names a site, and be in any order. -/
theorem validate_valid_spelled :
    let entries : List (CodePoints × Json) :=
      [(CodePoints.ofString "zzz", .string (.ofString "y")),
        (CodePoints.ofString " FA ", .string (.ofString " x "))]
    ∃ loaded loaded', validate .builtin (.object entries) = .ok loaded ∧
      loaded.usernames.get? "furaffinity" = some (.ofString "x") ∧ loaded.ignoredKeys = ["zzz"] ∧
      validate .builtin (.object entries.reverse) = .ok loaded' ∧
      loaded'.usernames.get? "furaffinity" = some (.ofString "x") := by
  intro entries
  have hok : validate .builtin (.object entries) =
      .ok ⟨[("furaffinity", .ofString "x")], ["zzz"]⟩ := by decide +kernel
  obtain ⟨-, -, -, horder⟩ := (validate_valid .builtin (.object entries)).2 entries _ rfl hok
  obtain ⟨loaded', hok', hget⟩ := horder entries.reverse
    (Fields.perm_ofEntries (by decide +kernel) (List.reverse_perm entries))
  exact ⟨_, loaded', hok, rfl, rfl, hok', hget "furaffinity"⟩

/-- A site may have the key that never holds a name for its id. -/
theorem not_every_site_kept :
    let R : Registry := ⟨[{ Site.weasyl with id := "__proto__", aliases := ["p"] }],
      by decide +kernel⟩
    let entries : List (CodePoints × Json) :=
      [(CodePoints.ofString "p", .string (.ofString "x"))]
    ∃ s loaded, Names R (.ofString "p") s ∧ s.id = "__proto__" ∧
      validate R (.object entries) = .ok loaded ∧ loaded.usernames.get? "__proto__" = none := by
  intro R entries
  have hok : validate R (.object entries) = .ok ⟨[], []⟩ := by decide +kernel
  exact ⟨{ Site.weasyl with id := "__proto__", aliases := ["p"] }, _,
    ⟨by decide +kernel, by rfl⟩, rfl, hok, rfl⟩

end UsernameFile

end Crosspost
