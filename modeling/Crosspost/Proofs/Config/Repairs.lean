/-
  Repairing a file of user names.

  The keys at fault are reported, and they can be taken out of the file. Which of several keys
  for one site is at fault depends on those before it, so what is left is followed through the
  fields in turn.

  * `UsernameFile.reported`: the keys at which there are issues;
  * `UsernameFile.Judged`: after any fields, the ones that were not reported are clean, and are
    those that were found;
  * `UsernameFile.repaired`: **without the keys that are reported, a file is accepted, or no key
    in it names a site**; the first key with a name that its site accepts is not reported.
-/
import Crosspost.Proofs.Config.Issues
import Crosspost.Proofs.Json.Merging
import Crosspost.Proofs.Site.Naming

namespace Crosspost.UsernameFile

variable {R : Registry} {p : Progress} {fs : List (CodePoints × CodePoints)}
  {issues : List UsernameIssue}

/-- The keys at which there are issues. -/
def reported (issues : List UsernameIssue) : List CodePoints :=
  issues.flatMap fun i => i.path.map CodePoints.ofString

/-- The entries without the keys at which there are issues. -/
def unreported {α : Type} (issues : List UsernameIssue) (entries : List (CodePoints × α)) :
    List (CodePoints × α) :=
  entries.filter fun e => e.1 ∉ reported issues

theorem mem_unreported {α : Type} {entries : List (CodePoints × α)} {e : CodePoints × α} :
    e ∈ unreported issues entries ↔ e ∈ entries ∧ e.1 ∉ reported issues := by
  simp [unreported]

theorem reported_concat {i : UsernameIssue} {key : CodePoints} (h : i.path = [key.text])
    (hkey : .ofString key.text = key) : reported (issues ++ [i]) = reported issues ++ [key] := by
  simp [reported, h, hkey]

/-- A key that names a site is its own text. -/
theorem ofString_text_of_named? {key : CodePoints} {s : Site} (h : named? R key = some s) :
    CodePoints.ofString key.text = key := by
  obtain ⟨name, hname, -⟩ := Option.bind_eq_some_iff.1 h
  rw [CodePoints.eq_of_plain? hname, CodePoints.text_ofString]

/-! ## Fields in turn -/

/-- What is known after some fields: those that were not reported are clean, and they are what
    was found. -/
structure Judged (R : Registry) (fs : List (CodePoints × CodePoints)) (p : Progress) : Prop where
  paths : ∀ i ∈ p.issues, ∃ key, i.path = [key]
  /-- Keys are reported in their order. -/
  order : (reported p.issues).Sublist (fs.map (·.1))
  clean : Clean R (unreported p.issues fs)
  found : p.found = (unreported p.issues fs).filterMap (found? R)

theorem unreported_concat {key : CodePoints} (name : CodePoints)
    (horder : (reported issues).Sublist (fs.map (·.1))) (hnew : key ∉ fs.map (·.1)) :
    unreported issues (fs ++ [(key, name)]) = unreported issues fs ++ [(key, name)] := by
  have hkey : key ∉ reported issues := fun h => hnew (horder.subset h)
  simp [unreported, hkey]

/-- A field that is reported is not there afterwards, and the others are. -/
theorem unreported_concat_of_reported {key : CodePoints} (name : CodePoints) {i : UsernameIssue}
    (h : reported (issues ++ [i]) = reported issues ++ [key]) (hnew : key ∉ fs.map (·.1)) :
    unreported (issues ++ [i]) (fs ++ [(key, name)]) = unreported issues fs := by
  have hsame : ∀ f ∈ fs, (f.1 ∉ reported (issues ++ [i]) ↔ f.1 ∉ reported issues) := by
    intro f hf
    have hne : f.1 ≠ key := fun he => hnew (he ▸ List.mem_map_of_mem hf)
    rw [h, List.mem_append, List.mem_singleton, or_iff_left hne]
  have hlast : unreported (issues ++ [i]) [(key, name)] = [] := by simp [unreported, h]
  rw [unreported, List.filter_append, ← unreported, ← unreported, hlast, List.append_nil]
  exact List.filter_congr fun f hf => by simp only [hsame f hf]

theorem Judged.added {key name : CodePoints} {next : Progress} (h : Judged R fs p)
    (hnew : key ∉ fs.map (·.1)) (hadded : Added R p key name next) :
    Judged R (fs ++ [(key, name)]) next := by
  have hkeys : (fs ++ [(key, name)]).map (·.1) = fs.map (·.1) ++ [key] := by simp
  have hkept : (reported p.issues).Sublist (fs.map (·.1) ++ [key]) :=
    h.order.trans (List.sublist_append_left _ _)
  have hstay := unreported_concat name h.order hnew
  -- what holds if the field is reported, for whatever reason
  have hfault : ∀ {s : Site} (i : UsernameIssue), named? R key = some s → i.path = [key.text] →
      Judged R (fs ++ [(key, name)]) { p with issues := p.issues ++ [i] } := by
    intro s i hs hpath
    have hreported : reported (p.issues ++ [i]) = reported p.issues ++ [key] :=
      reported_concat hpath (ofString_text_of_named? hs)
    have hgone := unreported_concat_of_reported name hreported hnew
    refine ⟨fun j hj => ?_, ?_, ?_, ?_⟩
    · rcases List.mem_append.1 hj with hj | hj
      · exact h.paths j hj
      · exact ⟨_, List.mem_singleton.1 hj ▸ hpath⟩
    · simp only [hreported, hkeys]
      exact h.order.append (List.Sublist.refl _)
    · simp only [hgone]
      exact h.clean
    · simp only [hgone]
      exact h.found
  cases hadded with
  | ignored hs =>
    refine ⟨h.paths, hkeys ▸ hkept, ?_, ?_⟩
    · rw [hstay, clean_concat]
      exact ⟨h.clean, by simp [hs], by simp [hs]⟩
    · rw [hstay, h.found]
      simp [found?, hs]
  | duplicate hs _ => exact hfault _ hs rfl
  | refused hs _ _ => exact hfault _ hs rfl
  | found hs hl hc =>
    refine ⟨h.paths, hkeys ▸ hkept, ?_, ?_⟩
    · rw [h.found, lookup_found_eq_none_iff hs] at hl
      rw [hstay, clean_concat]
      refine ⟨h.clean, fun s' hs' => ?_, fun g hg s' hgs hs' => ?_⟩
      · rw [hs, Option.some.injEq] at hs'
        exact hs' ▸ hc
      · rw [hs, Option.some.injEq] at hs'
        exact hl g hg (hs' ▸ hgs)
    · rw [hstay, h.found]
      simp [found?, hs]

theorem judged (h : (fs.map (·.1)).Nodup) : Judged R fs (fs.foldl (Progress.add R) {}) := by
  induction fs using List.reverseRecOn with
  | nil => exact ⟨by simp, List.nil_sublist _, ⟨by simp [unreported], by simp [unreported]⟩, rfl⟩
  | append_singleton fs f ih =>
    rw [List.map_append, List.nodup_append] at h
    obtain ⟨hfs, -, hnew⟩ := h
    rw [List.foldl_append, List.foldl_cons, List.foldl_nil]
    exact (ih hfs).added (fun hm => hnew _ hm _ (by simp) rfl) (added R _ f.1 f.2)

/-- Fields are reported after those that were reported before. -/
theorem reported_foldl (fs : List (CodePoints × CodePoints)) (p : Progress) : ∃ more : List UsernameIssue,
    (fs.foldl (Progress.add R) p).issues = p.issues ++ more ∧
      ∀ key ∈ reported more, key ∈ fs.map (·.1) := by
  induction fs generalizing p with
  | nil => exact ⟨[], by simp, by simp [reported]⟩
  | cons f fs ih =>
    obtain ⟨key, name⟩ := f
    obtain ⟨more, hmore, hkeys⟩ := ih (p.add R (key, name))
    have hlater : ∀ k ∈ reported more, k ∈ ((key, name) :: fs).map (·.1) := fun k hk =>
      List.mem_cons_of_mem _ (hkeys k hk)
    have hfault : ∀ {s : Site} (i : UsernameIssue), named? R key = some s →
        i.path = [key.text] → ∀ k ∈ reported (i :: more), k ∈ ((key, name) :: fs).map (·.1) := by
      intro s i hs hpath k hk
      have hsplit : reported (i :: more) = key :: reported more := by
        simp [reported, hpath, ofString_text_of_named? hs]
      rw [hsplit, List.mem_cons] at hk
      rcases hk with rfl | hk
      · exact List.mem_cons_self
      · exact hlater k hk
    rw [List.foldl_cons, hmore]
    have hadded := added R p key name
    generalize p.add R (key, name) = next at hadded
    cases hadded with
    | ignored | found => exact ⟨more, rfl, hlater⟩
    | duplicate hs _ => exact ⟨_, List.append_assoc _ _ _, hfault _ hs rfl⟩
    | refused hs _ _ => exact ⟨_, List.append_assoc _ _ _, hfault _ hs rfl⟩

/-- The first name that its site accepts is not reported. -/
theorem not_reported_of_first {before after : List (CodePoints × CodePoints)}
    {key name : CodePoints} {s : Site}
    (hnodup : ((before ++ (key, name) :: after).map (·.1)).Nodup) (hs : named? R key = some s)
    (hc : s.refusal? name.text = none)
    (hfirst : ∀ g ∈ before, named? R g.1 = some s → s.refusal? g.2.text ≠ none) :
    key ∉ reported ((before ++ (key, name) :: after).foldl (Progress.add R) {}).issues := by
  rw [List.map_append, List.map_cons, List.nodup_append, List.nodup_cons] at hnodup
  obtain ⟨hbefore, ⟨hafter, -⟩, hapart⟩ := hnodup
  have hj := judged (R := R) hbefore
  have hl : (before.foldl (Progress.add R) {}).found.lookup s.id = none := by
    rw [hj.found, lookup_found_eq_none_iff hs]
    intro g hg hgs
    exact hfirst g (mem_unreported.1 hg).1 hgs (hj.clean.accepted g hg s hgs)
  have hadd : (before.foldl (Progress.add R) {}).add R (key, name) =
      { before.foldl (Progress.add R) {} with
        found := (before.foldl (Progress.add R) {}).found ++ [(s.id, key.text, name)] } := by
    have hs' : key.plain?.bind R.resolve? = some s := hs
    simp only [Progress.add, hs', hl, hc]
  rw [List.foldl_append, List.foldl_cons, hadd]
  obtain ⟨more, hmore, hkeys⟩ := reported_foldl (R := R) after
    { before.foldl (Progress.add R) {} with
      found := (before.foldl (Progress.add R) {}).found ++ [(s.id, key.text, name)] }
  rw [hmore]
  intro hm
  rw [reported, List.flatMap_append, List.mem_append] at hm
  rcases hm with hm | hm
  · exact hapart key (hj.order.subset hm) key List.mem_cons_self rfl
  · exact hafter (hkeys key hm)

/-! ## Files -/

variable {entries fields : List (CodePoints × Json)}

theorem names_append (front back : List (CodePoints × Json)) :
    names (front ++ back) = names front ++ names back := List.filterMap_append

theorem names_split {before after : List (CodePoints × Json)} {key name : CodePoints}
    (h : fields = before ++ (key, .string name) :: after) (hk : key.plain? ≠ some emptyKey) :
    names fields = names before ++ (key, name.trim) :: names after := by
  have hone : names [(key, .string name)] = [(key, name.trim)] := by simp [names, hk]
  rw [h, List.append_cons, names_append, names_append, hone, List.append_assoc]
  rfl

/-- A field may be taken out before the names are trimmed, or afterwards. -/
theorem names_unreported (issues : List UsernameIssue) (fields : List (CodePoints × Json)) :
    names (unreported issues fields) = unreported issues (names fields) := by
  unfold unreported names
  rw [List.filterMap_filter, List.filter_filterMap]
  refine List.filterMap_congr fun f _ => ?_
  obtain ⟨key, value⟩ := f
  cases value with
  | string name =>
    by_cases hk : key.plain? = some emptyKey <;> by_cases hr : key ∈ reported issues <;>
      simp [hk, hr, Option.filter]
  | null | bool | number | array | object => simp

/-- Clean fields are accepted, unless no key names a site. -/
theorem validate_of_clean
    (ht : ∀ f ∈ Fields.ofEntries entries, ∃ name : CodePoints, f.2 = .string name ∧ name.trim ≠ [])
    (hclean : Clean R (names (Fields.ofEntries entries))) :
    (∃ loaded, validate R (.object entries) = .ok loaded) ∨
      (∀ f ∈ Fields.ofEntries entries, ∀ s, ¬ Names R f.1 s) ∧
        validate R (.object entries) = .error [.noSites] := by
  rw [validate_object, if_pos (filterMap_formIssue?_eq_nil_iff.2 ht), foldl_add_of_clean hclean,
    result_progress]
  by_cases hsome : (names (Fields.ofEntries entries)).filterMap (found? R) = []
  · have hnone := mt (filterMap_found?_ne_nil_iff ht).2 (not_not.2 hsome)
    rw [if_pos hsome]
    exact .inr ⟨fun f hf s hs => hnone ⟨f, hf, s, hs⟩, rfl⟩
  · rw [if_neg hsome]
    exact .inl ⟨_, rfl⟩

/-- Issues with paths are those of the fields. -/
theorem issues_of_validate {i : UsernameIssue}
    (ht : ∀ f ∈ Fields.ofEntries entries, ∃ name : CodePoints, f.2 = .string name ∧ name.trim ≠ [])
    (h : validate R (.object entries) = .error issues) (hi : i ∈ issues) (hpath : i.path ≠ []) :
    ((names (Fields.ofEntries entries)).foldl (Progress.add R) {}).issues = issues := by
  rw [validate_object, if_pos (filterMap_formIssue?_eq_nil_iff.2 ht)] at h
  unfold Progress.result at h
  split_ifs at h with herror hnone
  · exact Except.error.inj h
  · obtain rfl := Except.error.inj h
    rw [List.mem_singleton.1 hi] at hpath
    exact absurd rfl hpath

/-- **Without the keys that are reported, a file is accepted, or no key in it names a site.** No
    key is reported twice, and of the keys of a site the first with a name that the site accepts
    is not reported. The key that never holds a name is not looked at. -/
theorem repaired (R : Registry) (entries : List (CodePoints × Json)) (issues : List UsernameIssue)
    (ht : ∀ f ∈ Fields.ofEntries entries, ∃ name : CodePoints, f.2 = .string name ∧ name.trim ≠ [])
    (h : validate R (.object entries) = .error issues) (hpath : ∃ i ∈ issues, i.path ≠ []) :
    (∀ i ∈ issues, ∃ key, i.path = [key]) ∧
    (reported issues).Nodup ∧
    ((∃ loaded, validate R (.object (unreported issues entries)) = .ok loaded) ∨
      (∀ f ∈ Fields.ofEntries (unreported issues entries), ∀ s, ¬ Names R f.1 s) ∧
        validate R (.object (unreported issues entries)) = .error [.noSites]) ∧
    ∀ (before after : List (CodePoints × Json)) (key name : CodePoints) (s : Site),
      Fields.ofEntries entries = before ++ (key, .string name) :: after → named? R key = some s →
      s.refusal? name.trim.text = none →
      (∀ (k n : CodePoints), (k, .string n) ∈ before → Names R k s →
        s.refusal? n.trim.text ≠ none) →
      key ∉ reported issues := by
  obtain ⟨i, hi, hi'⟩ := hpath
  have hissues := issues_of_validate ht h hi hi'
  have hnodup : ((names (Fields.ofEntries entries)).map (·.1)).Nodup :=
    keys_names ht ▸ (Fields.nodup_ofEntries entries).filter _
  have hj := judged (R := R) hnodup
  have hleft : Fields.ofEntries (unreported issues entries) =
      unreported issues (Fields.ofEntries entries) :=
    Fields.ofEntries_filter (fun key => key ∉ reported issues) entries
  refine ⟨hissues ▸ hj.paths, hissues ▸ hj.order.nodup hnodup, validate_of_clean ?_ ?_, ?_⟩
  · rw [hleft]
    exact fun f hf => ht f (mem_unreported.1 hf).1
  · rw [hleft, names_unreported]
    exact hissues ▸ hj.clean
  · intro before after key name s hsplit hs hc hfirst
    by_cases hk : key.plain? = some emptyKey
    · intro hreported
      have hmem := (hissues ▸ hj.order).subset hreported
      rw [keys_names ht] at hmem
      exact of_decide_eq_true (List.mem_filter.1 hmem).2 hk
    rw [names_split hsplit hk] at hnodup hissues
    rw [← hissues]
    refine not_reported_of_first hnodup hs hc fun g hg hgs => ?_
    obtain ⟨hgk, written, hwritten, hg⟩ := mem_names.1 hg
    rw [hg]
    exact hfirst _ _ hwritten ⟨hgk, hgs⟩

/-- Two keys for one site, of which the first is reported. -/
theorem repaired_respelled :
    let entries : List (CodePoints × Json) :=
      [(.ofString "mastodon", .string (.ofString "tester")),
        (.ofString "Mastodon", .string (.ofString "a@b.example"))]
    ∃ issues, validate .builtin (.object entries) = .error issues ∧ (reported issues).Nodup ∧
      .ofString "mastodon" ∈ reported issues ∧ .ofString "Mastodon" ∉ reported issues ∧
      ∃ loaded, validate .builtin (.object (unreported issues entries)) = .ok loaded := by
  intro entries
  have herror : validate .builtin (.object entries) =
      .error [.refusedName "mastodon" ("Mastodon username \"tester\" must look like user@instance")] := by decide +kernel
  have ht := filterMap_formIssue?_eq_nil_iff.1
    (show (Fields.ofEntries entries).filterMap formIssue? = [] by decide +kernel)
  obtain ⟨-, hnodup, hleft, hfirst⟩ := repaired .builtin entries _ ht herror
    ⟨_, List.mem_singleton_self _, by decide⟩
  have hsite : Names .builtin (.ofString "Mastodon") Site.mastodon :=
    ⟨by decide +kernel, by rfl⟩
  have hfields : Fields.ofEntries entries = entries :=
    Fields.ofEntries_eq_self (by decide +kernel) (by simp [entries]; decide +kernel)
  have hkept := hfirst [(.ofString "mastodon", .string (.ofString "tester"))] []
    (.ofString "Mastodon") (.ofString "a@b.example") Site.mastodon hfields hsite.2
    (by decide +kernel) fun k n hmem _ => by
      obtain ⟨rfl, hn⟩ := Prod.mk.inj (List.mem_singleton.1 hmem)
      cases hn
      decide +kernel
  refine ⟨_, herror, hnodup, by decide +kernel, hkept, hleft.resolve_right fun hnone => ?_⟩
  refine hnone.1 (.ofString "Mastodon", .string (.ofString "a@b.example")) ?_ _ hsite
  exact Fields.ofEntries_singleton _ ▸ List.mem_singleton_self _

/-- The key that never holds a name may name a site. -/
theorem not_repaired_of_emptyKey :
    let R : Registry := ⟨[Site.mastodon, { Site.weasyl with aliases := ["__proto__"] }],
      by decide +kernel⟩
    let entries : List (CodePoints × Json) :=
      [(.ofString "__proto__", .string (.ofString "x")),
        (.ofString "mastodon", .string (.ofString "tester"))]
    ∃ issues, (∀ f ∈ Fields.ofEntries entries, ∃ name : CodePoints,
        f.2 = .string name ∧ name.trim ≠ []) ∧
      validate R (.object entries) = .error issues ∧ (∃ i ∈ issues, i.path ≠ []) ∧
      (∀ loaded, validate R (.object (unreported issues entries)) ≠ .ok loaded) ∧
      ∃ f ∈ Fields.ofEntries (unreported issues entries), named? R f.1 ≠ none := by
  intro R entries
  have ht := filterMap_formIssue?_eq_nil_iff.1
    (show (Fields.ofEntries entries).filterMap formIssue? = [] by decide +kernel)
  have herror : validate R (.object entries) =
      .error [.refusedName "mastodon" ("Mastodon username \"tester\" must look like user@instance")] := by decide +kernel
  have hleft : validate R (.object (unreported
      [.refusedName "mastodon" ("Mastodon username \"tester\" must look like user@instance")] entries)) = .error [.noSites] := by
    decide +kernel
  refine ⟨_, ht, herror, ⟨_, List.mem_singleton_self _, by decide⟩, fun loaded => ?_,
    (.ofString "__proto__", .string (.ofString "x")), ?_, by decide +kernel⟩
  · rw [hleft]
    simp
  · exact Fields.ofEntries_singleton _ ▸ List.mem_singleton_self _

end Crosspost.UsernameFile
