/-
  The issues of a file of user names.

  A file is checked for its form, and then for its sites. A field that is at fault on its own
  is at fault among others, though perhaps for another reason; but the sites are not looked
  at while some field is malformed.

  * `UsernameFile.Reports`: there is an issue at a key;
  * `UsernameFile.exists_issue_of_refused`: a refused name has an issue, whatever comes
    before and after it;
  * `UsernameFile.reports_of_alone`: **what is reported of a field on its own is reported of
    the file, unless another field is malformed and this one is not**.
-/
import Crosspost.Proofs.Config.UsernameFiles

namespace Crosspost.UsernameFile

variable {R : Registry} {fs : List (CodePoints × CodePoints)} {f : CodePoints × Json}

/-- There is an issue at a key. -/
def Reports (x : Except (List UsernameIssue) LoadedUsernames) (key : CodePoints) : Prop :=
  ∃ issues, x = .error issues ∧ ∃ i ∈ issues, i.path = [key.text]

/-! ## Form -/

theorem path_of_formIssue? {i : UsernameIssue} (h : formIssue? f = some i) :
    i.path = [f.1.text] := by
  obtain ⟨key, value⟩ := f
  cases value with
  | string name =>
    simp only [formIssue?] at h
    split_ifs at h
    cases h
    rfl
  | null | bool | number | array | object =>
    cases h
    rfl

/-- Malformed fields are reported, and nothing else is. -/
theorem validate_of_malformed {entries : List (CodePoints × Json)}
    (h : (Fields.ofEntries entries).filterMap formIssue? ≠ []) :
    validate R (.object entries) = .error ((Fields.ofEntries entries).filterMap formIssue?) := by
  rw [validate_object, if_neg h]

theorem reports_of_malformed {entries : List (CodePoints × Json)}
    (hf : f ∈ Fields.ofEntries entries) (h : formIssue? f ≠ none) :
    Reports (validate R (.object entries)) f.1 := by
  obtain ⟨i, hi⟩ := Option.ne_none_iff_exists'.1 h
  have hmem : i ∈ (Fields.ofEntries entries).filterMap formIssue? :=
    List.mem_filterMap.2 ⟨f, hf, hi⟩
  exact ⟨_, validate_of_malformed (List.ne_nil_of_mem hmem), i, hmem, path_of_formIssue? hi⟩

/-! ## Sites -/

/-- A name that its site refuses has an issue: that, or that an earlier key names the site. -/
theorem exists_issue_of_refused {g : CodePoints × CodePoints} {s : Site}
    {reason : String} (hg : g ∈ fs) (hs : named? R g.1 = some s)
    (hc : s.refusal? g.2.text = some reason) (p : Progress) :
    ∃ i ∈ (fs.foldl (Progress.add R) p).issues, i.path = [g.1.text] := by
  induction fs generalizing p with
  | nil => cases hg
  | cons f fs ih =>
    rw [List.foldl_cons]
    rcases List.mem_cons.1 hg with rfl | hg
    · suffices h : ∃ i ∈ (p.add R g).issues, i.path = [g.1.text] by
        obtain ⟨i, hi, hpath⟩ := h
        exact ⟨i, issues_subset_foldl hi, hpath⟩
      obtain ⟨key, name⟩ := g
      have hadded := added R p key name
      generalize p.add R (key, name) = next at hadded
      cases hadded with
      | ignored hnone =>
        rw [hs] at hnone
        cases hnone
      | duplicate | refused => exact ⟨_, List.mem_concat_self, rfl⟩
      | found hs' _ hc' =>
        rw [hs, Option.some.injEq] at hs'
        rw [← hs', hc] at hc'
        cases hc'
    · exact ih hg _

theorem reports_result {p : Progress} {key : CodePoints} :
    Reports p.result key ↔ ∃ i ∈ p.issues, i.path = [key.text] := by
  unfold Progress.result Reports
  cases h : p.issues with
  | cons i issues => simp
  | nil =>
    simp only [List.isEmpty_nil, Bool.not_true, Bool.false_eq_true, if_false]
    split_ifs <;> simp [UsernameIssue.path]

theorem reports_of_wellFormed {entries : List (CodePoints × Json)} {key : CodePoints}
    (h : (Fields.ofEntries entries).filterMap formIssue? = []) :
    Reports (validate R (.object entries)) key ↔
      ∃ i ∈ ((names (Fields.ofEntries entries)).foldl (Progress.add R) {}).issues,
        i.path = [key.text] := by
  rw [validate_object, if_pos h, reports_result]

/-- What is reported of a well-formed field on its own is that its name is refused. -/
theorem refused_of_alone (hw : formIssue? f = none) (h : Reports (validate R (.object [f])) f.1) :
    ∃ (name : CodePoints) (s : Site) (reason : String), f.2 = .string name ∧
      Names R f.1 s ∧ s.refusal? name.trim.text = some reason := by
  have hfields := Fields.ofEntries_singleton f
  have hform : (Fields.ofEntries [f]).filterMap formIssue? = [] := by simp [hfields, hw]
  obtain ⟨i, hi, -⟩ := (reports_of_wellFormed hform).1 h
  rw [hfields] at hi
  by_contra hnot
  have ht := filterMap_formIssue?_eq_nil_iff.1 (hfields ▸ hform)
  have hclean : Clean R (names [f]) := by
    refine (clean_names_iff (by simp) ht).2
      ⟨fun g hg g' hg' _ _ _ => ?_, fun key name s hmem hs => ?_⟩
    · rw [List.mem_singleton.1 hg, List.mem_singleton.1 hg']
    · by_contra hc
      obtain ⟨reason, hc⟩ := Option.ne_none_iff_exists'.1 hc
      obtain rfl := List.mem_singleton.1 hmem
      exact hnot ⟨name, s, reason, rfl, hs, hc⟩
  rw [issues_foldl_eq_nil_iff.2 hclean] at hi
  cases hi

/-! ## Files -/

/-- **What is reported of a field on its own is reported of the file, unless another field is
    malformed and this one is not**: then malformed fields alone are reported. -/
theorem reports_of_alone (R : Registry) (entries : List (CodePoints × Json)) :
    ((Fields.ofEntries entries).filterMap formIssue? ≠ [] →
      validate R (.object entries) =
        .error ((Fields.ofEntries entries).filterMap formIssue?)) ∧
    ∀ f ∈ Fields.ofEntries entries, Reports (validate R (.object [f])) f.1 →
      (formIssue? f ≠ none ∨ (Fields.ofEntries entries).filterMap formIssue? = []) →
      Reports (validate R (.object entries)) f.1 := by
  refine ⟨validate_of_malformed, fun f hf halone h => ?_⟩
  by_cases hw : formIssue? f = none
  · have hform := h.resolve_left (not_not.2 hw)
    obtain ⟨name, s, reason, hname, hs, hc⟩ := refused_of_alone hw halone
    obtain ⟨key, value⟩ := f
    obtain rfl : value = .string name := hname
    exact (reports_of_wellFormed hform).2
      (exists_issue_of_refused (mem_names.2 ⟨hs.1, name, hf, rfl⟩) hs.2 hc {})
  · exact reports_of_malformed hf hw

/-- A refused name behind another key of its site. -/
theorem reports_of_alone_behind_key :
    let f : CodePoints × Json := (.ofString "Mastodon", .string (.ofString "tester"))
    Reports (validate .builtin (.object [f])) f.1 ∧
      Reports (validate .builtin
        (.object [(.ofString "mastodon", .string (.ofString "a@b.example")), f])) f.1 := by
  intro f
  have halone : Reports (validate .builtin (.object [f])) f.1 := by
    have h : validate .builtin (.object [f]) =
        .error [.refusedName "Mastodon" ("Mastodon username \"tester\" must look like user@instance")] := by decide +kernel
    exact ⟨_, h, _, List.mem_singleton_self _, rfl⟩
  let entries : List (CodePoints × Json) :=
    [(.ofString "mastodon", .string (.ofString "a@b.example")), f]
  have hfields : (Fields.ofEntries entries).Perm entries := Fields.ofEntries_perm (by decide +kernel)
  exact ⟨halone, (reports_of_alone .builtin _).2 f (hfields.mem_iff.2 (by simp [entries])) halone
    (.inr (by decide +kernel))⟩

/-- A malformed name hides the refused one of another site. -/
theorem not_reported_beside_malformed :
    let f : CodePoints × Json := (.ofString "mastodon", .string (.ofString "tester"))
    Reports (validate .builtin (.object [f])) f.1 ∧
      ¬ Reports (validate .builtin (.object [f, (.ofString "fa", .number "42")])) f.1 := by
  intro f
  have halone : validate .builtin (.object [f]) =
      .error [.refusedName "mastodon" ("Mastodon username \"tester\" must look like user@instance")] := by decide +kernel
  have hfile : validate .builtin (.object [f, (.ofString "fa", .number "42")]) =
      .error [.notAText "fa"] := by decide +kernel
  refine ⟨⟨_, halone, _, List.mem_singleton_self _, rfl⟩, ?_⟩
  rintro ⟨issues, herror, i, hi, hpath⟩
  rw [hfile] at herror
  cases herror
  rw [List.mem_singleton.1 hi] at hpath
  exact absurd hpath (by decide)

end Crosspost.UsernameFile
