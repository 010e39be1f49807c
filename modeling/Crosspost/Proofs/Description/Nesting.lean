/-
  Tags in what a destination shows.

  * `Node.Live target flags n ns`: the node `n` is shown at a destination, in `ns` at some
    depth, and `Node.Leads`: a link or a switch among such nodes leads to an address there;
  * `Node.marks_renderAll`: what is written for nodes without brackets is text between tags
    that are nested, with addresses to which these nodes lead;
  * `Document.wellNested_of_render`: **where no text and no user name holds a bracket, the tags
    of a rendered description are well nested**, and every address in it is one to which a live
    link or switch leads, as a whole.
-/
import Crosspost.Proofs.Description.Gaps
import Crosspost.Proofs.Description.Independence
import Crosspost.Proofs.Site.Mentions

namespace Crosspost

/-! ## Live nodes and their addresses -/

/-- The address that was picked, or that of the profile of the user that was. -/
def Resolution.address? (R : Registry) (kind : SwitchKind) (r : Resolution String (List Node)) :
    Option String :=
  match kind, r.site with
  | .user, .site id => (R.get? id).map fun owner => owner.profileUrl r.attr
  | _, _ => some r.attr

namespace Node

/-- The lists inside a node that are shown at a destination. -/
def liveParts (target : String) (flags : List String) : Node → List (List Node)
  | text _ | self _ => []
  | format _ ns | link _ ns => [ns]
  | switch kind chain _ => ((Chain.resolve chain kind target).bind (·.label)).toList
  | conditional condition yes no => if condition.holds target flags then [yes] else no.toList

/-- The node `n` is shown at a destination, in `ns` or inside one of its nodes at some
    depth. Other than in `liveAll`, what encloses a shown node is itself among these, and so is
    what stands in the text that a switch shows. -/
inductive Live (target : String) (flags : List String) (n : Node) : List Node → Prop
  | here {ns : List Node} : n ∈ ns → Live target flags n ns
  | inside {m : Node} {ns part : List Node} : m ∈ ns → part ∈ m.liveParts target flags →
      Live target flags n part → Live target flags n ns

/-- Where a link or a switch leads at a destination. -/
def address? (R : Registry) (target : String) : Node → Option String
  | link url _ => some url
  | switch kind chain _ => (Chain.resolve chain kind target).bind (·.address? R kind)
  | _ => none

/-- A live link or switch leads to an address. -/
def Leads (R : Registry) (target : String) (flags : List String) (ns : List Node)
    (url : String) : Prop :=
  ∃ n, Live target flags n ns ∧ n.address? R target = some url

end Node

theorem Usernames.mem_of_get?_eq_some {usernames : Usernames} {id : String} {name : CodePoints}
    (h : usernames.get? id = some name) : (id, name) ∈ usernames := by
  obtain ⟨before, after, rfl, -⟩ := List.lookup_eq_some_iff.1 h
  exact List.mem_append_right before List.mem_cons_self

/-! ## What is written -/

/-- What is written, where there is no failure, is text between nested tags. -/
def Rendered.Marks (leads : String → Prop) (r : Rendered) : Prop :=
  ∀ f, r = .ok f → Crosspost.Marks leads f.text

/-- What was picked from a chain, with its text written. -/
def Resolution.rendered (ctx : RenderContext) (r : Resolution String (List Node)) :
    Resolution Account Rendered :=
  r.map (fun attr => .own (CodePoints.ofString attr)) (Node.renderAll ctx)

namespace RenderContext

open Node

variable {ctx : RenderContext} {leads : String → Prop} {url : String}
  {r : Resolution String (List Node)}

theorem marks_empty (leads : String → Prop) : Marks leads "" := .of_unbracketed (by decide)

theorem marks_ofText {s : String} (h : Marks leads s) : Rendered.Marks leads (.ok (.ofText s)) := by
  rintro _ ⟨⟩
  exact h

theorem marks_gap (kind : GapKind) (position : Position) :
    (ctx.gap kind position).Marks leads := by
  rintro _ ⟨⟩
  exact marks_empty leads

theorem marks_map {label : Rendered} {g : String → String} (h : label.Marks leads)
    (hg : ∀ s, Marks leads s → Marks leads (g s)) :
    Rendered.Marks leads (label.map (Fragment.mapText g)) := by
  intro f hf
  cases label with
  | error e => cases hf
  | ok a =>
    cases hf
    exact hg a.text (h a rfl)

theorem marks_link {label : Rendered} (hd : ctx.site.dialect = .bbcode) (hurl : Unbracketed url)
    (hl : leads url) (h : label.Marks leads) : (ctx.link url label).Marks leads := by
  refine marks_map h fun s hs => ?_
  rw [hd]
  exact hs.link hurl hl

/-- What is shown of a binding that was picked. -/
theorem marks_shown (hattr : Unbracketed r.attr)
    (h : ∀ part ∈ r.label, (renderAll ctx part).Marks leads) :
    (shown (r.rendered ctx)).Marks leads := by
  obtain ⟨rule, site, attr, label⟩ := r
  cases label with
  | some part => exact h part rfl
  | none =>
    have hecho : Unbracketed (Account.text (.own (CodePoints.ofString attr))) := by
      rwa [Account.text, Account.points, CodePoints.text_ofString]
    cases rule with
    | generic => exact marks_ofText (marks_empty leads)
    | exact => exact marks_ofText (.of_unbracketed hecho)
    | innermost => exact marks_ofText (.of_unbracketed hecho)

/-- Picking from a chain does not depend on its texts. -/
theorem resolve_renderChain (ctx : RenderContext) (chain : Chain String (List Node))
    (kind : SwitchKind) (target : String) :
    Chain.resolve (renderChain ctx chain) kind target =
      (Chain.resolve chain kind target).map (·.rendered ctx) := by
  have hrendered : renderChain ctx chain = chain.map
      (Binding.map (fun attr => .own (CodePoints.ofString attr)) (renderAll ctx)) := by
    rw [renderChain_eq_map]
    exact List.map_congr_left fun b _ => renderBinding_eq b
  rw [hrendered, Chain.resolve_map]
  rfl

section Builtin

variable (hR : ctx.registry = .builtin) (hs : ctx.site ∈ Site.builtin)
  (hd : ctx.site.dialect = .bbcode)
include hR hs hd

/-- An account is mentioned, or linked to by the address of its profile. -/
theorem marks_account {id : String} (hid : r.site = .site id) (hattr : Unbracketed r.attr)
    (hleads : ∀ owner, ctx.registry.get? id = some owner → leads (owner.profileUrl r.attr))
    (h : ∀ part ∈ r.label, (renderAll ctx part).Marks leads) :
    (ctx.account (r.rendered ctx)).Marks leads := by
  have hshown := marks_shown hattr h
  intro f hf
  unfold account at hf
  have hsite : (r.rendered ctx).site = .site id := hid
  rw [hsite] at hf
  dsimp only at hf
  cases ho : ctx.registry.get? id with
  | none =>
    rw [ho] at hf
    cases hf
  | some owner =>
    have hmem : owner ∈ Site.builtin := (Registry.get?_eq_some_iff.1 (hR ▸ ho)).1
    rw [ho] at hf
    dsimp only at hf
    split at hf
    · next text hmention =>
      cases hf
      split_ifs at hmention
      exact Site.marks_mention hs hd hattr hmention
    · exact marks_link hd (Site.unbracketed_profileUrl hmem hattr) (hleads owner ho) hshown f hf

/-- What is written for a switch: nothing, a link or an account. -/
theorem marks_switch {kind : SwitchKind} {chain : Chain String (List Node)} {position : Position}
    (hchain : ∀ b ∈ chain, Unbracketed b.attr)
    (hleads : ∀ url ∈ (Node.switch kind chain position).address? ctx.registry ctx.site.id,
      leads url)
    (h : ∀ part ∈ (Node.switch kind chain position).liveParts ctx.site.id ctx.flags,
      (renderAll ctx part).Marks leads) :
    (ctx.switch kind (renderChain ctx chain) position).Marks leads := by
  unfold RenderContext.switch
  rw [resolve_renderChain]
  cases hr : Chain.resolve chain kind ctx.site.id with
  | none => exact marks_gap .siteurl position
  | some r =>
    have hattr : Unbracketed r.attr := by
      obtain ⟨⟨b, hb, -, ha⟩, -⟩ := Chain.resolve_from hr
      exact ha ▸ hchain b hb
    have hlabel : ∀ part ∈ r.label, (renderAll ctx part).Marks leads := fun part hp =>
      h part (by simp [liveParts, hr, Option.mem_def.1 hp])
    have haddress : ∀ url ∈ r.address? ctx.registry kind, leads url := by
      simpa only [address?, hr, Option.bind_some] using hleads
    have htext : (r.rendered ctx).attr.text = r.attr := CodePoints.text_ofString r.attr
    have hshown := marks_shown hattr hlabel
    rw [Option.map_some]
    dsimp only
    rw [htext]
    cases hsite : r.site with
    | generic =>
      have hl : leads r.attr := haddress r.attr (by simp [Resolution.address?, hsite])
      have hrendered : (r.rendered ctx).site = .generic := hsite
      rw [hrendered]
      exact marks_link hd hattr hl hshown
    | site id =>
      have hrendered : (r.rendered ctx).site = .site id := hsite
      rw [hrendered]
      cases kind with
      | user =>
        refine marks_account hR hs hd hsite hattr (fun owner ho => haddress _ ?_) hlabel
        simp [Resolution.address?, hsite, ho]
      | siteurl =>
        have hl : leads r.attr := haddress r.attr rfl
        refine marks_link hd hattr hl ?_
        change Rendered.Marks leads ((r.label.map (renderAll ctx)).getD (.ok .empty))
        cases hr : r.label with
        | none => exact marks_ofText (marks_empty leads)
        | some part => exact hlabel part hr

/-- What is written for the author's own account: nothing, or a mention. -/
theorem marks_self (hnames : ∀ name ∈ ctx.usernames.get? ctx.site.id, Unbracketed name.text)
    (position : Position) : (ctx.self position).Marks leads := by
  have hmem : ctx.site ∈ ctx.registry.sites := hR ▸ hs
  have haccount := ctx.usernames.account?_of_not_member (Registry.not_member_builtin _ hs)
  cases hname : ctx.usernames.get? ctx.site.id with
  | none =>
    rw [self_of_none (by rw [haccount, hname, Option.map_none])]
    exact marks_gap .self position
  | some name =>
    have hid : ∀ site ∈ Site.builtin, site.id ≠ "generic" := by decide
    have hsite : BindingSite.ofId ctx.site.id = .site ctx.site.id := if_neg (hid _ hs)
    obtain ⟨text, hmention, hmarks⟩ : ∃ text,
        ctx.site.mention ctx.site.toOwner name = some text ∧ Marks leads text :=
      Site.exists_ownMention hs hd (hnames name hname)
    have haccount' : ctx.account ⟨.exact, .site ctx.site.id, .own name, none⟩ =
        .ok (.ofText text) := by
      unfold account
      dsimp only
      rw [Registry.get?_of_mem hmem]
      dsimp only [Account.points]
      rw [Option.isNone_none, if_pos rfl, hmention]
    rw [self_of_account hmem (by rw [haccount, hname, Option.map_some]), hsite, haccount']
    exact marks_ofText hmarks

end Builtin

end RenderContext

namespace Node

variable {leads : String → Prop}

theorem liveParts_subset_parts (target : String) (flags : List String) (n : Node) :
    n.liveParts target flags ⊆ n.parts := by
  cases n with
  | switch kind chain position =>
    intro part hp
    obtain ⟨r, hr, hlabel⟩ := Option.bind_eq_some_iff.1 (Option.mem_toList.1 hp)
    obtain ⟨b, hb, hd⟩ := (Chain.resolve_from hr).2 part hlabel
    exact List.mem_filterMap.2 ⟨b, hb, hd⟩
  | conditional condition yes no =>
    rw [liveParts, parts]
    split_ifs
    · exact List.cons_subset_cons _ (List.nil_subset _)
    · exact List.subset_cons_self _ _
  | _ => exact List.Subset.refl _

theorem Leads.mono {R : Registry} {target : String} {flags : List String} {ns ms : List Node}
    {url : String} (h : Leads R target flags ns url) (hsub : ns ⊆ ms) :
    Leads R target flags ms url := by
  obtain ⟨n, hn, hurl⟩ := h
  refine ⟨n, ?_, hurl⟩
  cases hn with
  | here hm => exact .here (hsub hm)
  | inside hm hp hn => exact .inside (hsub hm) hp hn

section Builtin

variable {ctx : RenderContext} (hR : ctx.registry = .builtin) (hs : ctx.site ∈ Site.builtin)
  (hd : ctx.site.dialect = .bbcode)
  (hnames : ∀ name ∈ ctx.usernames.get? ctx.site.id, Unbracketed name.text)
include hR hs hd hnames

/-- **What is written for a node**, where what is written for its parts is so. -/
theorem marks_render {n : Node} (hn : n.Bare)
    (hleads : ∀ url ∈ n.address? ctx.registry ctx.site.id, leads url)
    (h : ∀ part ∈ n.liveParts ctx.site.id ctx.flags, (renderAll ctx part).Marks leads) :
    (n.render ctx).Marks leads := by
  cases n with
  | text value =>
    rw [render]
    exact RenderContext.marks_ofText (.of_unbracketed hn)
  | format kind ns =>
    rw [render, hd]
    exact RenderContext.marks_map (h ns (List.mem_singleton_self _)) fun _ hs => hs.format kind
  | link url ns =>
    rw [render]
    exact RenderContext.marks_link hd hn (hleads url rfl) (h ns (List.mem_singleton_self _))
  | self position =>
    rw [render]
    exact RenderContext.marks_self hR hs hd hnames position
  | switch kind chain position =>
    rw [render]
    exact RenderContext.marks_switch hR hs hd hn hleads h
  | conditional condition yes no =>
    rw [render]
    rw [liveParts] at h
    split_ifs at h ⊢ with hholds
    · exact h yes (List.mem_singleton_self _)
    · cases no with
      | none => exact RenderContext.marks_ofText (RenderContext.marks_empty leads)
      | some no => exact h no (by simp)

/-- **What is written for nodes without brackets is text between nested tags.** -/
theorem marks_renderAll {ns : List Node} (hns : Every Bare ns)
    (hleads : ∀ url, Leads ctx.registry ctx.site.id ctx.flags ns url → leads url) :
    (renderAll ctx ns).Marks leads := by
  induction ns using list_induction with
  | nil => exact RenderContext.marks_ofText (RenderContext.marks_empty leads)
  | cons n ns ihparts ih =>
    obtain ⟨hn, hparts, hns⟩ := every_cons.1 hns
    -- addresses that live nodes of a part or of the rest lead to are addresses of the whole
    have hnode : (n.render ctx).Marks leads := by
      refine marks_render hR hs hd hnames hn (fun url hurl => ?_) fun part hp => ?_
      · exact hleads url ⟨n, .here List.mem_cons_self, hurl⟩
      · have hpart := liveParts_subset_parts _ _ n hp
        refine ihparts part hpart (hparts part hpart) fun url hurl => ?_
        obtain ⟨m, hm, haddress⟩ := hurl
        exact hleads url ⟨m, .inside List.mem_cons_self hp hm, haddress⟩
    have hrest := ih hns fun url hurl => hleads url (hurl.mono (List.subset_cons_self n ns))
    intro f hf
    rw [renderAll] at hf
    cases ha : n.render ctx with
    | error e =>
      rw [ha] at hf
      cases hf
    | ok a =>
      rw [ha] at hf
      cases hb : renderAll ctx ns with
      | error e =>
        rw [hb] at hf
        cases hf
      | ok b =>
        rw [hb] at hf
        cases hf
        exact (hnode a ha).append (hrest b hb)

end Builtin

end Node

/-! ## Descriptions -/

namespace Document

/-- **The tags of what is rendered are well nested.** Where no text between the tags of a source
    holds a bracket, nor does any user name, it is rendered at each destination with tags, every
    tag that is written there is closed by one of its name, and each address is one to which a
    live link or switch leads. -/
theorem wellNested_of_render {source : String} {ns : List Node} {site : Site}
    {usernames : Usernames} (h : parse .builtin source = .ok ns)
    (htext : ∀ cs, .text cs ∈ Lexeme.scan source.toList → ∀ c ∈ cs, Tag.isAttrChar c = true)
    (hs : site ∈ Registry.builtin.sites) (hd : site.dialect = .bbcode)
    (hnames : ∀ e ∈ usernames, Unbracketed e.2.text) (flags : List String) :
    ∃ f, render .builtin usernames flags ns site.id = .ok f ∧
      Lexeme.WellNested (Node.Leads .builtin site.id flags ns) (Lexeme.scan f.text.toList) := by
  obtain ⟨f, hf⟩ := (render_eq_ok_iff (every_sound h) hs usernames flags).2
    (.inl (Usernames.obstacle?_of_not_member (Registry.not_member_builtin site hs)))
  have hown : ∀ name ∈ usernames.get? site.id, Unbracketed name.text :=
    fun name hname => hnames (site.id, name) (Usernames.mem_of_get?_eq_some hname)
  have hmarks : (Node.renderAll ⟨.builtin, site, usernames, flags⟩ ns).Marks
      (Node.Leads .builtin site.id flags ns) :=
    Node.marks_renderAll rfl hs hd hown (every_bare h htext) fun _ hl => hl
  rw [← render_of_mem usernames flags hs] at hmarks
  exact ⟨f, hf, (hmarks f hf).wellNested⟩

/-- Links of both kinds, a user of another site in a formatted text, one with a label, and the
    author. -/
theorem wellNested_of_render_inkbunny :
    let source := "[b]1[url=x]2[/url][user][sf=a_b][/sf][/user][/b][url]y[/url]" ++
      "[user][weasyl=c d]3[/weasyl][/user][self][/self]"
    let text := "[b]1[url=x]2[/url][sf]a_b[/sf][/b][url]y[/url]" ++
      "[url=https://www.weasyl.com/~cd]3[/url][iconname]me[/iconname]"
    ∃ ns f, parse .builtin source = .ok ns ∧
      render .builtin [("inkbunny", "me")] [] ns "inkbunny" = .ok f ∧ f.text = text ∧
      Lexeme.WellNested (Node.Leads .builtin "inkbunny" [] ns) (Lexeme.scan f.text.toList) := by
  intro source text
  obtain ⟨ns, hparse⟩ : ∃ ns, parse .builtin source = .ok ns := exists_of_isOk (by decide +kernel)
  have hbare : ∀ l ∈ Lexeme.scan source.toList, l.Bare := by decide +kernel
  have hs : Site.inkbunny ∈ Registry.builtin.sites := by simp [Registry.builtin, Site.builtin]
  have hnames : ∀ e ∈ ([("inkbunny", "me")] : Usernames), Unbracketed e.2.text := by
    decide +kernel
  obtain ⟨f, hf, hnested⟩ :=
    wellNested_of_render hparse (fun cs hcs => hbare _ hcs) hs rfl hnames []
  change render .builtin [("inkbunny", "me")] [] ns "inkbunny" = .ok f at hf
  have hshown : (parse .builtin source).toOption.bind (fun ns =>
      (render .builtin [("inkbunny", "me")] [] ns "inkbunny").toOption.map (·.text)) =
        some text := by
    decide +kernel
  rw [hparse] at hshown
  have htext : (render .builtin [("inkbunny", "me")] [] ns "inkbunny").toOption.map (·.text) =
      some text := hshown
  rw [hf] at htext
  exact ⟨ns, f, hparse, hf, Option.some.inj htext, hnested⟩

end Document

end Crosspost
