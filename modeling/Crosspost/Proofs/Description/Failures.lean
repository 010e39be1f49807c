/-
  When a description cannot be rendered.

  * `RenderError.IsMissing`: the destination, or a site that is linked to, is not
    registered;
  * `Node.Strands`: among live nodes there is a user chain that has nothing for the
    destination and ends in a site that is not registered;
  * `Document.missing_site_iff`: **a description of one registry lacks a site of another one
    exactly if the destination is not in it or a live chain is stranded**, and never
    lacks a site of its own registry.

  Before a stranded chain there may be a `[self]` whose account is a member and no text,
  which ends the rendering first.
-/
import Crosspost.Proofs.Description.Generating
import Crosspost.Proofs.Description.Live

namespace Crosspost

/-- A site is not registered. -/
def RenderError.IsMissing : RenderError → Prop
  | unknownTarget _ | missingSite _ => True
  | notText _ => False

namespace Node

/-- Some user chain among live nodes is stranded, and is reached. -/
def Strands (ctx : RenderContext) (live : List Node) : Prop :=
  ∃ before chain position after, live = before ++ .switch .user chain position :: after ∧
    Chain.Stranded ctx.registry ctx.site.id chain ∧ ctx.usernames.Writable ctx.site before

variable {ctx : RenderContext} {n : Node} {e : RenderError}

theorem failure?_cases (h : failure? ctx n = some e) :
    (∃ p step, n = .self p ∧ ctx.usernames.obstacle? ctx.site = some step ∧ e = .notText step) ∨
      ∃ chain p id, n = .switch .user chain p ∧
        Chain.Stranded ctx.registry ctx.site.id chain ∧ e = .missingSite id := by
  unfold failure? at h
  split at h
  · next p =>
    obtain ⟨step, hstep, rfl⟩ := Option.map_eq_some_iff.1 h
    exact .inl ⟨p, step, rfl, hstep, rfl⟩
  · next chain p =>
    split_ifs at h with hm
    obtain ⟨b, hb, rfl⟩ := Option.map_eq_some_iff.1 h
    obtain ⟨hlast, hnone⟩ := Option.filter_eq_some_iff.1 hb
    exact .inr ⟨chain, p, b.site.id, rfl, ⟨hm, b, hlast, by simpa using hnone⟩, rfl⟩
  · cases h

theorem failure?_of_stranded {chain : Chain String (List Node)}
    (h : Chain.Stranded ctx.registry ctx.site.id chain) (p : Position) :
    ∃ id, failure? ctx (.switch .user chain p) = some (.missingSite id) := by
  obtain ⟨hm, b, hb, hnone⟩ := h
  refine ⟨b.site.id, ?_⟩
  rw [failure?, if_pos hm, Option.mem_def.1 hb]
  simp [hnone]

theorem outcome_eq_error_iff {live : List Node} :
    outcome ctx live = .error e ↔ live.findSome? (failure? ctx) = some e := by
  unfold outcome
  cases live.findSome? (failure? ctx) <;> simp

/-- An account can be written everywhere if no live node fails for being no text. -/
theorem writable_iff {live : List Node} : ctx.usernames.Writable ctx.site live ↔
    ∀ n ∈ live, ∀ step, failure? ctx n ≠ some (.notText step) := by
  constructor
  · intro hw n hn step hfail
    rcases failure?_cases hfail with ⟨p, _, rfl, hstep, -⟩ | ⟨_, _, _, _, _, he⟩
    · rcases hw with hnone | hself
      · rw [hnone] at hstep
        cases hstep
      · exact hself p hn
    · cases he
  · intro h
    cases ho : ctx.usernames.obstacle? ctx.site with
    | none => exact .inl ho
    | some step =>
      right
      intro p hp
      refine h _ hp step ?_
      simp [failure?, ho]

theorem outcome_isMissing_iff {live : List Node} :
    (∃ e, outcome ctx live = .error e ∧ e.IsMissing) ↔ Strands ctx live := by
  constructor
  · rintro ⟨e, he, hmissing⟩
    rw [outcome_eq_error_iff, List.findSome?_eq_some_iff] at he
    obtain ⟨before, n, after, rfl, hn, hbefore⟩ := he
    rcases failure?_cases hn with ⟨_, _, _, _, rfl⟩ | ⟨chain, p, id, rfl, hchain, rfl⟩
    · exact absurd hmissing id
    · refine ⟨before, chain, p, after, rfl, hchain, writable_iff.2 fun m hm step hfail => ?_⟩
      rw [hbefore m hm] at hfail
      cases hfail
  · rintro ⟨before, chain, p, after, rfl, hchain, hreached⟩
    simp only [outcome_eq_error_iff, List.findSome?_append]
    cases hbefore : before.findSome? (failure? ctx) with
    | none =>
      obtain ⟨id, hid⟩ := failure?_of_stranded hchain p
      exact ⟨.missingSite id, by simp [hid], trivial⟩
    | some e =>
      -- what comes first is a stranded chain as well
      refine ⟨e, rfl, ?_⟩
      obtain ⟨n, hn, hfail⟩ := List.exists_of_findSome?_eq_some hbefore
      rcases failure?_cases hfail with ⟨_, step, _, _, rfl⟩ | ⟨_, _, _, _, _, rfl⟩
      · exact absurd hfail (writable_iff.1 hreached n hn step)
      · trivial

/-- A sound chain is not stranded in its own registry. -/
theorem SoundChain.not_stranded {R : Registry} {kind : SwitchKind}
    {chain : Chain String (List Node)} (h : SoundChain R kind chain) (target : String) :
    ¬ chain.Stranded R target := by
  rintro ⟨hm, b, hb, hnone⟩
  have hmem : b ∈ chain := List.mem_of_getLast? hb
  cases hs : b.site with
  | generic => exact (hm b hmem).2 hs
  | site id =>
    obtain ⟨s, hget, -⟩ := h.site b hmem id hs
    rw [hs, BindingSite.id, hget] at hnone
    cases hnone

end Node

namespace Document

open Node

variable {R : Registry} {ns : List Node}

theorem renderAll_eq_error_iff (ctx : RenderContext) (hs : ctx.site ∈ ctx.registry.sites)
    (h : Every (Sound R) ns) (e : RenderError) :
    renderAll ctx ns = .error e ↔
      outcome ctx (liveAll ctx.site.id ctx.flags ns) = .error e := by
  rw [← gaps_renderAll ctx hs h]
  cases renderAll ctx ns <;> simp [Except.map]

theorem render_isMissing_iff (h : Every (Sound R) ns) (R' : Registry) (usernames : Usernames)
    (flags : List String) (target : String) :
    (∃ e, render R' usernames flags ns target = .error e ∧ e.IsMissing) ↔
      R'.get? target = none ∨ ∃ site, R'.get? target = some site ∧
        Strands ⟨R', site, usernames, flags⟩ (liveAll target flags ns) := by
  unfold render
  cases hget : R'.get? target with
  | none => exact ⟨fun _ => .inl rfl, fun _ => ⟨_, rfl, trivial⟩⟩
  | some site =>
    obtain ⟨hs, rfl⟩ := Registry.get?_eq_some_iff.1 hget
    simp only [renderAll_eq_error_iff ⟨R', site, usernames, flags⟩ hs h, outcome_isMissing_iff]
    simp

theorem render_not_isMissing (h : Every (Sound R) ns) {usernames : Usernames}
    {flags : List String} {site : Site} (hs : site ∈ R.sites) {e : RenderError}
    (he : render R usernames flags ns site.id = .error e) : ¬ e.IsMissing := by
  intro hmissing
  rcases (render_isMissing_iff h R usernames flags site.id).1 ⟨e, he, hmissing⟩ with
    hnone | ⟨s, hget, before, chain, p, after, hlive, hchain, -⟩
  · rw [Registry.get?_of_mem hs] at hnone
    cases hnone
  · have hmem : .switch .user chain p ∈ liveAll site.id flags ns := by simp [hlive]
    exact SoundChain.not_stranded (h.of_mem_liveAll _ _ _ hmem) s.id hchain

/-- **A description of `R` lacks a site of another registry exactly if its destination is
    not in there or a live chain is stranded, and lacks none of `R` itself.** -/
theorem missing_site_iff (R : Registry) :
    (∀ source ns, parse R source = .ok ns →
      (∀ R' usernames flags target,
        (∃ e, render R' usernames flags ns target = .error e ∧ e.IsMissing) ↔
          R'.get? target = none ∨ ∃ site, R'.get? target = some site ∧
            Strands ⟨R', site, usernames, flags⟩ (liveAll target flags ns)) ∧
      ∀ usernames flags, ∀ site ∈ R.sites, ∀ e,
        render R usernames flags ns site.id = .error e → ¬ e.IsMissing) ∧
    ∀ usernames flags source e earlier,
      Generated.ofSource R usernames flags source = .error (.render e earlier) →
        ¬ e.IsMissing := by
  constructor
  · intro source ns h
    exact ⟨render_isMissing_iff (every_sound h),
      fun _ _ site hs e he => render_not_isMissing (every_sound h) hs he⟩
  · intro usernames flags source e earlier he
    obtain ⟨ns, hns, s, hs, hrender⟩ := Generated.exists_of_ofSource_eq_error he
    exact render_not_isMissing (every_sound hns) hs hrender

theorem missing_site_weasyl :
    let source := "[if=site != weasyl][b]a[/b][user][weasyl=x]c[/weasyl][/user][/if]"
    let alone : Registry := ⟨[.furaffinity], by decide +kernel⟩
    ∃ ns, parse .builtin source = .ok ns ∧
      render alone [] [] ns "furaffinity" = .error (.missingSite "weasyl") ∧
      Strands ⟨alone, .furaffinity, [], []⟩ (liveAll "furaffinity" [] ns) := by
  intro source alone
  have hrun : (parse .builtin source).toOption.map (render alone [] [] · "furaffinity") =
      some (.error (.missingSite "weasyl")) := by decide +kernel
  cases h : parse .builtin source with
  | error e =>
    rw [h] at hrun
    cases hrun
  | ok ns =>
    rw [h] at hrun
    have hrender := Option.some.inj hrun
    refine ⟨ns, rfl, hrender, ?_⟩
    obtain ⟨site, hget, hstrands⟩ :=
      ((((missing_site_iff .builtin).1 source ns h).1 alone [] [] "furaffinity").1
        ⟨_, hrender, trivial⟩).resolve_left (by decide)
    obtain rfl : .furaffinity = site := Option.some.inj hget
    exact hstrands

/-- A stranded chain alone is not enough: in front of it a member that is no text stands
    for the author at a site with the member's name. -/
theorem not_missing_site_iff_stranded :
    ¬ ∀ R : Registry, (∀ s ∈ R.sites, s.id ≠ "generic") → ∀ source ns, parse R source = .ok ns →
      ∀ (R' : Registry) (usernames : Usernames) (flags : List String) (target : String),
        (∃ e, render R' usernames flags ns target = .error e ∧ e.IsMissing) ↔
          R'.get? target = none ∨ ∃ chain p, .switch .user chain p ∈ liveAll target flags ns ∧
            Chain.Stranded R' target chain := by
  intro h
  let R' : Registry := ⟨[{ Site.furaffinity with id := "constructor", aliases := [] }],
    by decide +kernel⟩
  let chain : Chain String (List Node) := [⟨.site "weasyl", "x", none⟩]
  have hparse : parse .builtin "[self][/self][user][weasyl=x][/weasyl][/user]" =
      .ok [.self ⟨0, 1, 1⟩, .switch .user chain ⟨13, 1, 14⟩] := by rfl
  obtain ⟨e, he, hmissing⟩ := (h .builtin (by decide) _ _ hparse R' [] [] "constructor").2
    (.inr ⟨chain, ⟨13, 1, 14⟩, by simp [liveAll, live], by decide, _, rfl, by decide⟩)
  have hrender : render R' [] [] [.self ⟨0, 1, 1⟩, .switch .user chain ⟨13, 1, 14⟩] "constructor" =
      .error (.notText .replace) := by rfl
  rw [hrender] at he
  cases he
  exact hmissing

end Document

end Crosspost
