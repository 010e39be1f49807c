/-
  What the description of a site depends on.

  * `Document.render_congr`: the rendering for a destination depends on the author's
    account there and on the flags that conditions ask about, and on nothing else of the
    configuration, for nodes are shown alike where accounts are (`Node.renderAll_congr`);
  * `Document.independence`: **so does it among all sites**: whether a source can be read
    does not depend on the accounts, and the description of a site is the one that is
    made where no other site has an account.
-/
import Crosspost.Proofs.Description.Gaps

namespace Crosspost

/-! ## Flags -/

/-- Two lists of flags agree on the operands of a condition that asks about flags. -/
def Condition.Agrees (flags flags' : List String) (c : Condition) : Prop :=
  c.subject ≠ .site → ∀ o ∈ c.operands, (o ∈ flags ↔ o ∈ flags')

theorem Condition.Agrees.holds_eq {flags flags' : List String} {c : Condition}
    (h : c.Agrees flags flags') (target : String) : c.holds target flags = c.holds target flags' := by
  have haccepts : ∀ o ∈ c.operands, c.accepts target flags o = c.accepts target flags' o := by
    intro o ho
    unfold accepts
    cases hs : c.subject with
    | site => rfl
    | _ =>
      have hiff := h (by simp [hs]) o ho
      simp [hiff]
  have hany : c.operands.any (c.accepts target flags) = c.operands.any (c.accepts target flags') := by
    rw [Bool.eq_iff_iff]
    simp only [List.any_eq_true]
    constructor
    · rintro ⟨o, ho, h⟩
      exact ⟨o, ho, haccepts o ho ▸ h⟩
    · rintro ⟨o, ho, h⟩
      exact ⟨o, ho, (haccepts o ho).symm ▸ h⟩
  unfold holds
  rw [hany]

namespace Node

/-- Two lists of flags agree on the condition of a node, if it has one. -/
def Agrees (flags flags' : List String) : Node → Prop
  | conditional condition _ _ => condition.Agrees flags flags'
  | _ => True

theorem every_agrees {flags : List String} {ns : List Node} : Every (Agrees flags flags) ns := by
  intro l _ n _
  cases n with
  | conditional condition => exact fun _ _ _ => Iff.rfl
  | _ => trivial

/-- The accounts that a node may show, if it is a user switch, satisfy `P`. -/
def Accounts (P : BindingSite → Account → Prop) : Node → Prop
  | switch .user chain _ => ∀ b ∈ chain, P b.site (.own b.attr)
  | _ => True

end Node

namespace RenderContext

/-- Contexts that write alike for one destination, and show alike the author and the accounts
    that satisfy `P`. -/
structure Alike (P : BindingSite → Account → Prop) (ctx ctx' : RenderContext) : Prop where
  id : ctx.site.id = ctx'.site.id
  dialect : ctx.site.dialect = ctx'.site.dialect
  account : ∀ r, P r.site r.attr → ctx.account r = ctx'.account r
  self : ∀ position, ctx.self position = ctx'.self position

variable {P : BindingSite → Account → Prop} {ctx ctx' : RenderContext}

theorem link_congr (h : ctx.site.dialect = ctx'.site.dialect) : ctx.link = ctx'.link := by
  funext url label
  rw [link, link, h]

theorem gap_congr (h : ctx.site.id = ctx'.site.id) : ctx.gap = ctx'.gap := by
  funext kind position
  rw [gap, gap, h]

/-- The author is shown alike where the account at the destination is. -/
theorem self_congr (hs : ctx.site ∈ ctx.registry.sites) (hs' : ctx'.site ∈ ctx'.registry.sites)
    (hid : ctx.site.id = ctx'.site.id)
    (hu : ctx.usernames.account? ctx.site.id = ctx'.usernames.account? ctx.site.id)
    (haccount : ∀ a, ctx.usernames.account? ctx.site.id = some a →
      ctx.account ⟨.exact, .ofId ctx.site.id, a, none⟩ =
        ctx'.account ⟨.exact, .ofId ctx.site.id, a, none⟩) (position : Position) :
    ctx.self position = ctx'.self position := by
  cases h : ctx.usernames.account? ctx.site.id with
  | none =>
    rw [self_of_none h, self_of_none (hid ▸ hu ▸ h), gap_congr hid]
  | some a =>
    rw [self_of_account hs h, self_of_account hs' (hid ▸ hu ▸ h), haccount a h, hid]

end RenderContext

namespace Node

variable {P : BindingSite → Account → Prop} {ctx ctx' : RenderContext}

/-- A chain is shown alike where its texts and its accounts are. -/
theorem switch_congr (h : ctx.Alike P ctx') {chain : Chain Account Rendered} {kind : SwitchKind}
    (hchain : kind = .user → ∀ b ∈ chain, P b.site b.attr) (position : Position) :
    ctx.switch kind chain position = ctx'.switch kind chain position := by
  have hlink : ctx.link = ctx'.link := RenderContext.link_congr h.dialect
  unfold RenderContext.switch
  rw [h.id]
  cases hr : chain.resolve kind ctx'.site.id with
  | none => rw [RenderContext.gap_congr h.id]
  | some r =>
    obtain ⟨⟨b, hb, hsite, hattr⟩, -⟩ := Chain.resolve_from hr
    cases kind with
    | siteurl => cases hs : r.site <;> simp only [hs, hlink]
    | user =>
      have haccount := h.account r (by rw [hsite, hattr]; exact hchain rfl b hb)
      cases hs : r.site <;> simp only [hs, hlink, haccount]

/-- **Nodes are shown alike in contexts that show their accounts alike.** -/
theorem renderAll_congr (h : ctx.Alike P ctx') {ns : List Node} (hns : Every (Accounts P) ns)
    (hflags : Every (Agrees ctx.flags ctx'.flags) ns) : renderAll ctx ns = renderAll ctx' ns := by
  induction ns using list_induction with
  | nil => rfl
  | cons n ns ihparts ih =>
    obtain ⟨hn, hparts, hrest⟩ := every_cons.1 hns
    obtain ⟨hflag, hflagparts, hflagrest⟩ := every_cons.1 hflags
    have hpart := fun part hp => ihparts part hp (hparts part hp) (hflagparts part hp)
    have hnode : n.render ctx = n.render ctx' := by
      cases n with
      | text value => rfl
      | format kind children =>
        rw [render, render, hpart children (List.mem_singleton_self _), h.dialect]
      | link url children =>
        rw [render, render, hpart children (List.mem_singleton_self _),
          RenderContext.link_congr h.dialect]
      | self position =>
        rw [render, render]
        exact h.self position
      | switch kind chain position =>
        have hchain : renderChain ctx chain = renderChain ctx' chain := by
          rw [renderChain_eq_map, renderChain_eq_map]
          refine List.map_congr_left fun b hb => ?_
          rw [renderBinding_eq, renderBinding_eq]
          cases hd : b.display with
          | none => rfl
          | some part =>
            rw [Option.map_some, Option.map_some, hpart part (List.mem_filterMap.2 ⟨b, hb, hd⟩)]
        rw [render, render, hchain]
        refine switch_congr h ?_ position
        rintro rfl b hb
        rw [renderChain_eq_map] at hb
        obtain ⟨b₀, hb₀, rfl⟩ := List.mem_map.1 hb
        rw [renderBinding_eq]
        exact hn b₀ hb₀
      | conditional condition yes no =>
        have hholds : condition.holds ctx.site.id ctx.flags =
            condition.holds ctx'.site.id ctx'.flags := by
          rw [h.id]
          exact Condition.Agrees.holds_eq hflag _
        rw [render, render, hpart yes List.mem_cons_self, hholds]
        cases no with
        | none => rfl
        | some no =>
          rw [renderOption, renderOption, hpart no (by simp [parts])]
    rw [renderAll, renderAll, hnode, ih hrest hflagrest]

/-- All accounts satisfy what holds of every account. -/
theorem every_accounts (h : ∀ site a, P site a) {ns : List Node} : Every (Accounts P) ns := by
  intro l _ n _
  cases n with
  | switch kind chain =>
    cases kind with
    | user => exact fun b _ => h _ _
    | siteurl => trivial
  | _ => trivial

end Node

/-- The known destinations are found under the names of no members. -/
theorem Registry.not_member_builtin : ∀ site ∈ builtin.sites, Member.ofName? site.id = none := by
  decide

namespace Usernames

variable {usernames usernames' : Usernames} {id : String}

theorem account?_congr (h : usernames.get? id = usernames'.get? id) :
    usernames.account? id = usernames'.account? id := by
  rw [account?, account?, h]

theorem account?_of_not_member (h : Member.ofName? id = none) :
    usernames.account? id = (usernames.get? id).map .own := by
  simp [account?, Held.find?, h]

theorem obstacle?_of_not_member {site : Site} (h : Member.ofName? site.id = none) :
    usernames.obstacle? site = none := by
  unfold obstacle?
  rw [account?_of_not_member h]
  cases usernames.get? site.id <;> rfl

theorem get?_singleton (s : String) (name : CodePoints) :
    get? [(s, name)] id = if id = s then some name else none := by
  by_cases h : id = s
  · simp [get?, h]
  · have hne : (id == s) = false := beq_eq_false_iff_ne.2 h
    simp [get?, List.lookup_cons, h, hne]

end Usernames

namespace Document

open Node

theorem render_congr {R : Registry} {usernames usernames' : Usernames}
    {flags flags' : List String} {ns : List Node} {target : String}
    (hu : usernames.get? target = usernames'.get? target)
    (h : Every (Agrees flags flags') ns) :
    render R usernames flags ns target = render R usernames' flags' ns target := by
  unfold render
  cases hget : R.get? target with
  | none => rfl
  | some site =>
    obtain ⟨hs, rfl⟩ := Registry.get?_eq_some_iff.1 hget
    have halike : RenderContext.Alike (fun _ _ => True) ⟨R, site, usernames, flags⟩
        ⟨R, site, usernames', flags'⟩ :=
      ⟨rfl, rfl, fun _ _ => rfl,
        RenderContext.self_congr hs hs rfl (Usernames.account?_congr hu) fun _ _ => rfl⟩
    exact renderAll_congr halike (every_accounts fun _ _ => trivial) h

end Document

/-! ## All sites -/

namespace Generated

open Node

variable {R : Registry} {usernames : Usernames} {flags : List String} {source : String}
  {site : Site}

theorem targets_of_not_member (hR : ∀ s ∈ R.sites, Member.ofName? s.id = none) :
    targets R usernames = R.sites.filter fun s => (usernames.get? s.id).isSome := by
  refine List.filter_congr fun s hs => ?_
  rw [Usernames.account?_of_not_member (hR s hs), Option.isSome_map]

theorem targets_singleton (hR : ∀ s ∈ R.sites, Member.ofName? s.id = none) (hs : site ∈ R.sites)
    (name : CodePoints) : targets R [(site.id, name)] = [site] := by
  obtain ⟨before, after, happ⟩ := List.append_of_mem hs
  -- no other site has the id
  have hids := R.ids_nodup
  rw [happ, List.map_append, List.map_cons, List.nodup_append] at hids
  obtain ⟨-, hafter, hbefore⟩ := hids
  rw [List.nodup_cons] at hafter
  have hne : ∀ s ∈ before ++ after, s.id ≠ site.id := by
    intro s hm he
    rcases List.mem_append.1 hm with hm | hm
    · exact hbefore _ (List.mem_map_of_mem hm) _ List.mem_cons_self he
    · exact hafter.1 (List.mem_map.2 ⟨s, hm, he⟩)
  have hnil : ∀ sites ⊆ before ++ after,
      sites.filter (fun s => (Usernames.get? [(site.id, name)] s.id).isSome) = [] := by
    intro sites hsub
    refine List.filter_eq_nil_iff.2 fun s hm => ?_
    simp [Usernames.get?_singleton, hne s (hsub hm)]
  rw [targets_of_not_member hR, happ, List.filter_append, List.filter_cons,
    hnil before (List.subset_append_left _ _), hnil after (List.subset_append_right _ _)]
  simp [Usernames.get?_singleton]

/-- The description `d` is the only one made where `site` alone has its account. -/
def MadeAlone (R : Registry) (usernames : Usernames) (flags : List String) (source : String)
    (site : Site) (d : SiteDescription) : Prop :=
  d.site = site.id ∧ ∃ name events, usernames.get? site.id = some name ∧
    ofSource R [(site.id, name)] flags source = .ok ⟨[d], events⟩

theorem exists_name {s : Site} (hs : s ∈ R.sites.filter fun s => (usernames.get? s.id).isSome) :
    s ∈ R.sites ∧ ∃ name, usernames.get? s.id = some name := by
  obtain ⟨hmem, hname⟩ := List.mem_filter.1 hs
  exact ⟨hmem, Option.isSome_iff_exists.1 hname⟩

theorem madeAlone_of_blank (hR : ∀ s ∈ R.sites, Member.ofName? s.id = none)
    (hb : Text.isBlank (Source.normalize source) = true) :
    ∀ s ∈ R.sites.filter fun s => (usernames.get? s.id).isSome,
      MadeAlone R usernames flags source s (describe s .empty) := by
  intro s hs
  obtain ⟨hmem, name, hname⟩ := exists_name hs
  refine ⟨rfl, name, [], hname, ?_⟩
  simp [ofSource, hb, targets_singleton hR hmem]

theorem madeAlone_of_render {ns : List Node} {f : Fragment}
    (hR : ∀ s ∈ R.sites, Member.ofName? s.id = none)
    (hb : Text.isBlank (Source.normalize source) = false)
    (hp : Document.parse R (Source.normalize source) = .ok ns) {s : Site}
    (hs : s ∈ R.sites.filter fun s => (usernames.get? s.id).isSome)
    (hf : Document.render R usernames flags ns s.id = .ok f) :
    MadeAlone R usernames flags source s (describe s f) := by
  obtain ⟨hmem, name, hname⟩ := exists_name hs
  have halone : Document.render R [(s.id, name)] flags ns s.id = .ok f := by
    rw [← hf]
    refine Document.render_congr ?_ every_agrees
    rw [hname, Usernames.get?_singleton, if_pos rfl]
  refine ⟨rfl, name, report s f, hname, ?_⟩
  rw [ofSource_of_parse hb hp, targets_singleton hR hmem, ofNodes_eq_ok_iff]
  exact ⟨[f], .cons halone .nil, by simp⟩

/-- The descriptions of a source that can be read are those that each site has alone. -/
theorem madeAlone_of_ofNodes {ns : List Node} (hR : ∀ s ∈ R.sites, Member.ofName? s.id = none)
    (hb : Text.isBlank (Source.normalize source) = false)
    (hp : Document.parse R (Source.normalize source) = .ok ns) :
    ∃ g, ofSource R usernames flags source = .ok g ∧
      List.Forall₂ (MadeAlone R usernames flags source)
        (R.sites.filter fun s => (usernames.get? s.id).isSome) g.descriptions := by
  have hok : ∃ g, ofNodes R usernames flags ns (targets R usernames) = .ok g := by
    refine (ofNodes_isOk_iff (Document.every_sound hp) mem_sites_of_mem_targets).2 fun s hs => ?_
    exact .inl (Usernames.obstacle?_of_not_member (hR s (mem_sites_of_mem_targets s hs)))
  obtain ⟨g, hg⟩ := hok
  rw [ofSource_of_parse hb hp]
  refine ⟨g, hg, ?_⟩
  obtain ⟨fs, hfs, rfl⟩ := ofNodes_eq_ok_iff.1 hg
  rw [targets_of_not_member hR] at hfs ⊢
  have hall : ∀ s ∈ R.sites.filter (fun s => (usernames.get? s.id).isSome), ∀ f,
      Document.render R usernames flags ns s.id = .ok f →
        MadeAlone R usernames flags source s (describe s f) :=
    fun s hs f hf => madeAlone_of_render hR hb hp hs hf
  clear hg
  generalize (R.sites.filter fun s => (usernames.get? s.id).isSome) = sites at hfs hall ⊢
  induction hfs with
  | nil => exact .nil
  | cons hf _ ih =>
    exact .cons (hall _ List.mem_cons_self _ hf)
      (ih fun s hs => hall s (List.mem_cons_of_mem _ hs))

end Generated

namespace Document

open Node Generated

/-- **What is shown at a site depends on the author's account there, on the flags that
    conditions ask about, and on no account of another site.** -/
theorem independence (R : Registry) :
    (∀ usernames usernames' flags flags' ns target,
      usernames.get? target = usernames'.get? target → Every (Agrees flags flags') ns →
        render R usernames flags ns target = render R usernames' flags' ns target) ∧
    ∀ flags source,
      ((∃ e, ∀ usernames, ofSource R usernames flags source = .error (.parse e)) ∨
        ∀ usernames e, ofSource R usernames flags source ≠ .error (.parse e)) ∧
      ((∀ s ∈ R.sites, Member.ofName? s.id = none) →
        (∃ e, ∀ usernames, ofSource R usernames flags source = .error (.parse e)) ∨
          ∀ usernames, ∃ g, ofSource R usernames flags source = .ok g ∧
            List.Forall₂ (MadeAlone R usernames flags source)
              (R.sites.filter fun s => (usernames.get? s.id).isSome) g.descriptions) := by
  refine ⟨fun _ _ _ _ _ _ hu h => render_congr hu h, fun flags source => ?_⟩
  cases hb : Text.isBlank (Source.normalize source) with
  | true =>
    have hok : ∀ usernames, ofSource R usernames flags source =
        .ok ⟨(targets R usernames).map (describe · .empty), []⟩ := by
      intro usernames
      simp [ofSource, hb]
    refine ⟨.inr fun usernames e => by simp [hok], fun hR => .inr fun usernames => ?_⟩
    refine ⟨_, hok usernames, ?_⟩
    rw [targets_of_not_member hR, List.forall₂_map_right_iff]
    exact List.forall₂_same.2 (madeAlone_of_blank hR hb)
  | false =>
    cases hp : parse R (Source.normalize source) with
    | error e =>
      have herror : ∀ usernames, ofSource R usernames flags source = .error (.parse e) := by
        intro usernames
        simp [ofSource, hb, hp]
      exact ⟨.inl ⟨e, herror⟩, fun _ => .inl ⟨e, herror⟩⟩
    | ok ns =>
      refine ⟨.inr fun usernames e he => ?_, fun hR => .inr fun usernames => ?_⟩
      · rw [ofSource_of_parse hb hp] at he
        obtain ⟨_, _, _, _, _, -, -, -, heq⟩ := exists_of_ofNodes_eq_error he
        cases heq
      · exact madeAlone_of_ofNodes hR hb hp

theorem independence_self :
    let usernames : Usernames := [("weasyl", "a"), ("furaffinity", "b")]
    let source := "[b]c[/b] [self][/self]"
    ∃ g, ofSource .builtin usernames [] source = .ok g ∧
      List.Forall₂ (MadeAlone .builtin usernames [] source) [.furaffinity, .weasyl]
        g.descriptions := by
  intro usernames source
  have hok : (ofSource .builtin [] [] source).isOk = true := by decide +kernel
  have hR : ∀ s ∈ Registry.builtin.sites, Member.ofName? s.id = none := by decide +kernel
  rcases ((independence .builtin).2 [] source).2 hR with ⟨e, he⟩ | h
  · rw [he] at hok
    cases hok
  · exact h usernames

/-- A site with the name of a member is described although it has no account. -/
theorem not_forall_madeAlone :
    ¬ ∀ (R : Registry) (flags : List String) (source : String),
      (∃ e, ∀ usernames, ofSource R usernames flags source = .error (.parse e)) ∨
        ∀ usernames, ∃ g, ofSource R usernames flags source = .ok g ∧
          List.Forall₂ (MadeAlone R usernames flags source)
            (R.sites.filter fun s => (usernames.get? s.id).isSome) g.descriptions := by
  intro h
  let R : Registry := ⟨[.aryion, { Site.twitter with id := "toString", aliases := [] }],
    by decide +kernel⟩
  let usernames : Usernames := [("aryion", "a")]
  have hlength : (ofSource R usernames [] "x").toOption.map (·.descriptions.length) = some 2 := by
    decide +kernel
  rcases h R [] "x" with ⟨e, he⟩ | h
  · rw [he] at hlength
    cases hlength
  · obtain ⟨g, hg, hall⟩ := h usernames
    rw [hg] at hlength
    have hone : (R.sites.filter fun s => (usernames.get? s.id).isSome).length = 1 := by
      decide +kernel
    have htwo : g.descriptions.length = 2 := Option.some.inj hlength
    have hsame := hall.length_eq
    omega

end Document

end Crosspost
