/-
  Which gaps a description has.

  * `Document.render_eq_ok_iff`: rendering in the registry of a description succeeds
    exactly if the author's account can be written wherever it is asked for;
  * `Document.gaps_exact`: **the gaps are then those of the live nodes, one each and in
    order**, and generating reports them site by site.
-/
import Crosspost.Proofs.Description.Failures

namespace Crosspost

namespace Node

variable (ctx : RenderContext) {live : List Node}

/-- Live nodes of the registry fail at the author's account alone. -/
theorem failure?_eq_none_iff (h : ∀ n ∈ live, n.Sound ctx.registry) :
    live.findSome? (failure? ctx) = none ↔ ctx.usernames.Writable ctx.site live := by
  rw [List.findSome?_eq_none_iff]
  constructor
  · intro hnone
    refine writable_iff.2 fun n hn step hfail => ?_
    rw [hnone n hn] at hfail
    cases hfail
  · intro hw n hn
    cases hf : failure? ctx n with
    | none => rfl
    | some e =>
      rcases failure?_cases hf with ⟨_, step, _, _, rfl⟩ | ⟨chain, p, _, rfl, hchain, -⟩
      · exact absurd hf (writable_iff.1 hw n hn step)
      · exact absurd hchain (SoundChain.not_stranded (h _ hn) _)

theorem render_of_gap? {n : Node} {gap : Gap}
    (h : n.gap? ctx.usernames ctx.site.id = some gap) : n.render ctx = .ok ⟨"", [gap]⟩ := by
  unfold gap? at h
  split at h
  · split_ifs at h with ha
    cases h
    rw [render, RenderContext.self_of_none (Option.isNone_iff_eq_none.1 ha)]
    rfl
  · split_ifs at h with hm
    cases h
    rw [render, RenderContext.switch,
      Chain.resolve_siteurl_of_misses ((misses_renderChain ctx).2 hm)]
    rfl
  · cases h

end Node

namespace Document

open Node

variable {R : Registry} {ns : List Node} {site : Site}

theorem render_of_mem (usernames : Usernames) (flags : List String) (hs : site ∈ R.sites) :
    render R usernames flags ns site.id = renderAll ⟨R, site, usernames, flags⟩ ns := by
  rw [render, Registry.get?_of_mem hs]

/-- Sound nodes are rendered in their registry unless an account cannot be written. -/
theorem render_eq_ok_iff (h : Every (Sound R) ns) (hs : site ∈ R.sites)
    (usernames : Usernames) (flags : List String) :
    (∃ f, render R usernames flags ns site.id = .ok f) ↔
      usernames.Writable site (liveAll site.id flags ns) := by
  let ctx : RenderContext := ⟨R, site, usernames, flags⟩
  have hgaps := gaps_renderAll ctx hs h
  have hwritable := failure?_eq_none_iff ctx (h.of_mem_liveAll site.id flags)
  rw [render_of_mem usernames flags hs, ← hwritable]
  change (∃ f, renderAll ctx ns = .ok f) ↔ _
  rw [outcome] at hgaps
  cases hfail : (liveAll site.id flags ns).findSome? (failure? ctx) with
  | some e =>
    rw [hfail] at hgaps
    cases hr : renderAll ctx ns <;> simp [hr, Except.map] at hgaps ⊢
  | none =>
    rw [hfail] at hgaps
    cases hr : renderAll ctx ns <;> simp [hr, Except.map] at hgaps ⊢

theorem gaps_of_render {usernames : Usernames} {flags : List String} {f : Fragment}
    (h : Every (Sound R) ns) (hs : site ∈ R.sites)
    (hf : render R usernames flags ns site.id = .ok f) :
    f.gaps = (liveAll site.id flags ns).filterMap (gap? usernames site.id) := by
  have hgaps := gaps_renderAll ⟨R, site, usernames, flags⟩ hs h
  rw [← render_of_mem usernames flags hs, hf, outcome] at hgaps
  split at hgaps
  · cases hgaps
  · exact Except.ok.inj hgaps

end Document

/-! ## All sites -/

namespace Generated

open Node

/-- Events that warn of the gaps of a description one by one, and one that ends it. -/
def Reports (d : SiteDescription) (events : List LogEvent) : Prop :=
  ∃ warnings done, events = warnings ++ [done] ∧
    List.Forall₂ (fun gap e => e.level = .warn ∧ e.context = .ofJson [("site", .string gap.site),
      ("line", .int gap.position.line), ("column", .int gap.position.column)])
      d.gaps warnings ∧
    done.level = .debug ∧
    ∃ chars, done.context = .ofJson [("site", .string d.site), ("chars", .nat chars)]

theorem reports_report (site : Site) (f : Fragment) :
    Reports (describe site f) (report site f) := by
  refine ⟨f.gaps.map gapEvent, doneEvent site f.text, rfl, ?_, rfl, _, rfl⟩
  rw [List.forall₂_map_right_iff]
  exact List.forall₂_same.2 fun gap _ => ⟨rfl, rfl⟩

variable {R : Registry} {usernames : Usernames} {flags : List String} {ns : List Node}
  {sites : List Site}

theorem ofNodes_isOk_iff (h : Every (Sound R) ns) (hs : ∀ s ∈ sites, s ∈ R.sites) :
    (∃ g, ofNodes R usernames flags ns sites = .ok g) ↔
      ∀ s ∈ sites, usernames.Writable s (liveAll s.id flags ns) := by
  simp only [ofNodes_eq_ok_iff]
  induction sites with
  | nil => simp
  | cons s sites ih =>
    obtain ⟨hmem, hrest⟩ := List.forall_mem_cons.1 hs
    rw [List.forall_mem_cons, ← Document.render_eq_ok_iff h hmem, ← ih hrest]
    constructor
    · rintro ⟨_, _, _ | ⟨hf, hfs⟩, rfl⟩
      exact ⟨⟨_, hf⟩, _, _, hfs, rfl⟩
    · rintro ⟨⟨f, hf⟩, _, fs, hfs, rfl⟩
      exact ⟨_, f :: fs, .cons hf hfs, rfl⟩

theorem gaps_of_ofNodes {g : Generated} (h : Every (Sound R) ns) (hs : ∀ s ∈ sites, s ∈ R.sites)
    (hg : ofNodes R usernames flags ns sites = .ok g) :
    List.Forall₂ (fun s d => d.site = s.id ∧
      d.gaps = (liveAll s.id flags ns).filterMap (gap? usernames s.id)) sites g.descriptions ∧
    ∃ reports, g.events = reports.flatten ∧ List.Forall₂ Reports g.descriptions reports := by
  obtain ⟨fs, hfs, rfl⟩ := ofNodes_eq_ok_iff.1 hg
  clear hg
  refine ⟨?_, List.zipWith report sites fs, rfl, ?_⟩
  · induction hfs with
    | nil => exact .nil
    | cons hf _ ih =>
      obtain ⟨hmem, hrest⟩ := List.forall_mem_cons.1 hs
      exact .cons ⟨rfl, Document.gaps_of_render h hmem hf⟩ (ih hrest)
  · induction hfs with
    | nil => exact .nil
    | cons _ _ ih =>
      exact .cons (reports_report _ _) (ih (List.forall_mem_cons.1 hs).2)

theorem mem_sites_of_mem_targets : ∀ s ∈ targets R usernames, s ∈ R.sites := by
  intro s hs
  exact List.mem_of_mem_filter hs

theorem ofSource_of_parse {source : String} (hb : Text.isBlank (Source.normalize source) = false)
    (hp : Document.parse R (Source.normalize source) = .ok ns) :
    ofSource R usernames flags source =
      ofNodes R usernames flags ns (targets R usernames) := by
  simp [ofSource, hb, hp]

end Generated

namespace Document

open Node Generated

/-- **The gaps of a description are those of the nodes shown at a destination, one each
    and in order, and the events of its making report them.** -/
theorem gaps_exact (R : Registry) (usernames : Usernames) (flags : List String) :
    (∀ source ns, parse R source = .ok ns → ∀ site ∈ R.sites,
      ((∃ f, render R usernames flags ns site.id = .ok f) ↔
        usernames.Writable site (liveAll site.id flags ns)) ∧
      (∀ f, render R usernames flags ns site.id = .ok f →
        f.gaps = (liveAll site.id flags ns).filterMap (gap? usernames site.id)) ∧
      ∀ n ∈ liveAll site.id flags ns, ∀ gap, n.gap? usernames site.id = some gap →
        n.render ⟨R, site, usernames, flags⟩ = .ok ⟨"", [gap]⟩) ∧
    ∀ source,
      (Text.isBlank (Source.normalize source) = true →
        ∃ g, ofSource R usernames flags source = .ok g ∧ g.events = [] ∧
          List.Forall₂ (fun s d => d.site = s.id ∧ d.gaps = []) (targets R usernames)
            g.descriptions) ∧
      ∀ ns, Text.isBlank (Source.normalize source) = false →
        parse R (Source.normalize source) = .ok ns →
        ((∃ g, ofSource R usernames flags source = .ok g) ↔
          ∀ s ∈ targets R usernames, usernames.Writable s (liveAll s.id flags ns)) ∧
        ∀ g, ofSource R usernames flags source = .ok g →
          List.Forall₂ (fun s d => d.site = s.id ∧
            d.gaps = (liveAll s.id flags ns).filterMap (gap? usernames s.id))
            (targets R usernames) g.descriptions ∧
          ∃ reports, g.events = reports.flatten ∧
            List.Forall₂ Reports g.descriptions reports := by
  constructor
  · intro source ns hp site hs
    have h := every_sound hp
    exact ⟨render_eq_ok_iff h hs usernames flags, fun f hf => gaps_of_render h hs hf,
      fun n _ gap hgap => render_of_gap? ⟨R, site, usernames, flags⟩ hgap⟩
  · intro source
    constructor
    · intro hb
      refine ⟨⟨(targets R usernames).map (describe · .empty), []⟩, by simp [ofSource, hb], rfl, ?_⟩
      rw [List.forall₂_map_right_iff]
      exact List.forall₂_same.2 fun s _ => ⟨rfl, rfl⟩
    · intro ns hb hp
      rw [ofSource_of_parse hb hp]
      exact ⟨ofNodes_isOk_iff (every_sound hp) mem_sites_of_mem_targets,
        fun g hg => gaps_of_ofNodes (every_sound hp) mem_sites_of_mem_targets hg⟩

theorem gaps_exact_siteurl :
    let usernames : Usernames := [("furaffinity", "a")]
    let source := "[self][/self][siteurl][weasyl=x][/weasyl][/siteurl]"
    ∃ g, ofSource .builtin usernames [] source = .ok g ∧
      g.descriptions.map (·.gaps) = [[⟨.siteurl, "furaffinity", ⟨13, 1, 14⟩⟩]] ∧
      ∃ reports, g.events = reports.flatten ∧ List.Forall₂ Reports g.descriptions reports := by
  intro usernames source
  have hnormal : Source.normalize source = source := by decide +kernel
  have hblank : Text.isBlank source = false := by decide +kernel
  have hparse : parse .builtin "[self][/self][siteurl][weasyl=x][/weasyl][/siteurl]" =
      .ok [.self ⟨0, 1, 1⟩, .switch .siteurl [⟨.site "weasyl", "x", none⟩] ⟨13, 1, 14⟩] := by rfl
  change parse .builtin source = _ at hparse
  rw [← hnormal] at hblank hparse
  have htargets : targets .builtin usernames = [.furaffinity] := by rfl
  obtain ⟨hok, hgaps⟩ := ((gaps_exact .builtin usernames []).2 source).2 _ hblank hparse
  have hwritable : ∀ s ∈ targets .builtin usernames, usernames.obstacle? s = none := by
    rw [htargets]
    decide
  obtain ⟨g, hg⟩ := hok.2 fun s hs => .inl (hwritable s hs)
  obtain ⟨hsites, hreports⟩ := hgaps g hg
  refine ⟨g, hg, ?_, hreports⟩
  rw [htargets] at hsites
  obtain ⟨d, ds, ⟨-, hd⟩, hnil, hds⟩ := List.forall₂_cons_left_iff.1 hsites
  obtain rfl := List.forall₂_nil_left_iff.1 hnil
  rw [hds, List.map_singleton, hd]
  rfl

/-- Of a blank source nothing is logged, although it makes descriptions. -/
theorem not_reports_of_blank :
    ¬ ∀ (R : Registry) (usernames : Usernames) (flags : List String) (source : String)
      (ns : List Node), parse R (Source.normalize source) = .ok ns →
      ∀ g, ofSource R usernames flags source = .ok g →
        ∃ reports, g.events = reports.flatten ∧
          List.Forall₂ Reports g.descriptions reports := by
  intro h
  let d : SiteDescription := ⟨"furaffinity", "desc_furaffinity.txt", "", []⟩
  obtain ⟨reports, hflat, hreports⟩ :=
    h .builtin [("furaffinity", "a")] [] "" [] (by rfl) ⟨[d], []⟩ (by rfl)
  obtain ⟨events, rest, ⟨warnings, done, he, -⟩, -, hr⟩ := List.forall₂_cons_left_iff.1 hreports
  rw [hr, List.flatten_cons, he] at hflat
  simp at hflat

end Document

end Crosspost
