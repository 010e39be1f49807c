/-
  Laws of the descriptions of all sites.

  * `Generated.ofNodes_eq_ok_iff`: they are made of the renderings for the sites one by
    one;
  * `Generated.exists_of_ofNodes_eq_error`: none are made where a site cannot be
    rendered, and what was reported of the sites before it is kept;
  * `Generated.map_of_ofSource`: their sites and files are those of the targets.
-/
import Crosspost.Description.Generated
import Crosspost.Proofs.Results

namespace Crosspost

namespace Generated

variable {R : Registry} {usernames : Usernames} {flags : List String} {ns : List Node}
  {e : RenderError} {sites : List Site}

/-- The events of the rendering for a site. -/
def report (site : Site) (rendered : Fragment) : List LogEvent :=
  rendered.gaps.map gapEvent ++ [doneEvent site rendered.text]

theorem ofSite_eq_ok_iff {site : Site} {g : Generated} :
    ofSite R usernames flags ns site = .ok g ↔
      ∃ f, Document.render R usernames flags ns site.id = .ok f ∧
        g = ⟨[describe site f], report site f⟩ := by
  unfold ofSite
  cases Document.render R usernames flags ns site.id with
  | error e => simp
  | ok f => simp [report, eq_comm]

theorem ofNodes_eq_ok_iff {g : Generated} : ofNodes R usernames flags ns sites = .ok g ↔
    ∃ fs, List.Forall₂ (fun s f => Document.render R usernames flags ns s.id = .ok f) sites fs ∧
      g = ⟨List.zipWith describe sites fs, (List.zipWith report sites fs).flatten⟩ := by
  induction sites generalizing g with
  | nil =>
    rw [ofNodes]
    constructor
    · rintro ⟨⟩
      exact ⟨[], .nil, rfl⟩
    · rintro ⟨_, ⟨⟩, rfl⟩
      rfl
  | cons s sites ih =>
    rw [ofNodes, bind_eq_ok]
    constructor
    · rintro ⟨first, hfirst, h⟩
      obtain ⟨others, hothers, h⟩ := bind_eq_ok.1 h
      cases h
      obtain ⟨f, hf, rfl⟩ := ofSite_eq_ok_iff.1 hfirst
      obtain ⟨fs, hfs, rfl⟩ := ih.1 (mapError_eq_ok.1 hothers)
      exact ⟨f :: fs, .cons hf hfs, rfl⟩
    · rintro ⟨_, _ | ⟨hf, hfs⟩, rfl⟩
      exact ⟨_, ofSite_eq_ok_iff.2 ⟨_, hf, rfl⟩,
        bind_eq_ok.2 ⟨_, mapError_eq_ok.2 (ih.2 ⟨_, hfs, rfl⟩), rfl⟩⟩

theorem ofSite_eq_error {site : Site} {e : GenerateError}
    (h : ofSite R usernames flags ns site = .error e) :
    ∃ e', Document.render R usernames flags ns site.id = .error e' ∧ e = .render e' [] := by
  unfold ofSite at h
  split at h
  · next e' he =>
    cases h
    exact ⟨e', he, rfl⟩
  · cases h

/-- Sites are rendered one by one until one cannot be, and what has been reported of those
    before it stays with the error. -/
theorem exists_of_ofNodes_eq_error {e : GenerateError}
    (h : ofNodes R usernames flags ns sites = .error e) :
    ∃ before s after fs e', sites = before ++ s :: after ∧
      List.Forall₂ (fun s f => Document.render R usernames flags ns s.id = .ok f) before fs ∧
      Document.render R usernames flags ns s.id = .error e' ∧
      e = .render e' (List.zipWith report before fs).flatten := by
  induction sites generalizing e with
  | nil => cases h
  | cons s sites ih =>
    obtain h | ⟨first, hfirst, h⟩ := bind_eq_error.1 h
    · obtain ⟨e', he', rfl⟩ := ofSite_eq_error h
      exact ⟨[], s, sites, [], e', rfl, .nil, he', rfl⟩
    · obtain ⟨f, hf, rfl⟩ := ofSite_eq_ok_iff.1 hfirst
      obtain h | ⟨others, -, h⟩ := bind_eq_error.1 h
      · obtain ⟨e₁, h₁, rfl⟩ := mapError_eq_error.1 h
        obtain ⟨before, s', after, fs, e', rfl, hfs, he', rfl⟩ := ih h₁
        exact ⟨s :: before, s', after, f :: fs, e', rfl, .cons hf hfs, he', rfl⟩
      · cases h

theorem exists_of_ofSource_eq_error {source : String} {earlier : List LogEvent}
    (h : ofSource R usernames flags source = .error (.render e earlier)) :
    ∃ ns, Document.parse R (Source.normalize source) = .ok ns ∧
      ∃ s ∈ R.sites, Document.render R usernames flags ns s.id = .error e := by
  simp only [ofSource] at h
  split_ifs at h
  split at h
  · cases h
  · next ns hns =>
    obtain ⟨before, s, after, fs, e', hsites, -, he, heq⟩ := exists_of_ofNodes_eq_error h
    cases heq
    have hs : s ∈ targets R usernames := by
      rw [hsites]
      exact List.mem_append_right _ List.mem_cons_self
    exact ⟨ns, hns, s, List.mem_of_mem_filter hs, he⟩

/-- The descriptions are those of the targets, in their order. -/
theorem map_of_ofSource {source : String} {g : Generated}
    (h : ofSource R usernames flags source = .ok g) :
    g.descriptions.map (fun d => (d.site, d.fileName)) =
      (targets R usernames).map fun s => (s.id, s.outputFile) := by
  simp only [ofSource] at h
  split_ifs at h
  · cases h
    rw [List.map_map]
    rfl
  split at h
  · cases h
  · obtain ⟨fs, hfs, rfl⟩ := ofNodes_eq_ok_iff.1 h
    clear h
    generalize targets R usernames = sites at hfs ⊢
    induction hfs with
    | nil => rfl
    | cons _ _ ih =>
      rw [List.zipWith_cons_cons, List.map_cons, List.map_cons, ih]
      rfl

theorem fileName_of_ofSource {source : String} {g : Generated}
    (h : ofSource R usernames flags source = .ok g) :
    ∀ d ∈ g.descriptions, ∃ site ∈ R.sites, d.fileName = site.outputFile := by
  intro d hd
  have hmem := List.mem_map_of_mem (f := fun d : SiteDescription => (d.site, d.fileName)) hd
  rw [map_of_ofSource h] at hmem
  obtain ⟨site, hsite, heq⟩ := List.mem_map.1 hmem
  exact ⟨site, List.mem_of_mem_filter hsite, (congrArg Prod.snd heq).symm⟩

end Generated

end Crosspost
