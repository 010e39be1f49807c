/-
  Accounts with a handle.

  * `Account.HasHandle`: what is asked of an account on Mastodon; the accounts in a source that
    can be read have it (`Document.every_hasHandle`), and so has the one in a file of user
    names (`UsernameFile.readable_of_load`);
  * `RenderContext.account_mastodon`: such an account is shown as its handle;
  * `Document.render_of_handles`: what sites make of names that are no handles does not show;
  * `Document.handles_shown`: **a handle is read as it is spelled, and every account on Mastodon
    is shown as the handle that its name spells**.
-/
import Crosspost.Proofs.Config.UsernameFiles
import Crosspost.Proofs.Description.Independence
import Crosspost.Proofs.Site.Handles

namespace Crosspost

/-! ## Accounts in a source and in a file -/

/-- An account on Mastodon has a handle for its name. -/
def Account.HasHandle (site : BindingSite) (a : Account) : Prop :=
  site = .site "mastodon" → Handle.Readable a.text

theorem Registry.get?_mastodon : Registry.builtin.get? "mastodon" = some .mastodon :=
  Registry.get?_of_mem (s := .mastodon) (by simp [builtin, Site.builtin])

theorem Usernames.account?_mastodon (usernames : Usernames) :
    usernames.account? "mastodon" = (usernames.get? "mastodon").map .own :=
  account?_of_not_member (by decide)

/-- **The user names that a source has for Mastodon are handles.** -/
theorem Document.every_hasHandle {source : String} {ns : List Node}
    (h : parse .builtin source = .ok ns) : Node.Every (Node.Accounts Account.HasHandle) ns := by
  intro l hl n hn
  have hsound := every_sound h l hl n hn
  cases n with
  | switch kind chain =>
    cases kind with
    | user =>
      have hchain : Node.SoundChain .builtin .user chain := hsound
      intro b hb hsite
      obtain ⟨s, hs, hcheck⟩ := hchain.site b hb _ hsite
      cases Registry.get?_mastodon.symm.trans hs
      have hreadable := Site.checkUsername_mastodon.1 (hcheck rfl)
      simpa only [Account.text, Account.points, CodePoints.text_ofString] using hreadable
    | siteurl => trivial
  | _ => trivial

/-- **The user name that a file has for Mastodon is a handle.** -/
theorem UsernameFile.readable_of_load {value : Json} {loaded : LoadedUsernames}
    {name : CodePoints} (h : load .builtin value = .ok loaded)
    (hname : loaded.usernames.get? "mastodon" = some name) : Handle.Readable name.text := by
  have hvalid : validate .builtin value = .ok loaded := by
    unfold load at h
    cases hv : validate .builtin value with
    | error e => simp [hv, Except.mapError] at h
    | ok loaded' => simpa [hv, Except.mapError] using h
  refine Site.refusal?_mastodon.1 (refusal?_of_validate hvalid (s := .mastodon) ?_ hname)
  simp [Registry.builtin, Site.builtin]

/-! ## What is shown of a handle -/

namespace RenderContext

variable {ctx : RenderContext} {h : Handle} {name : CodePoints}

/-- A handle as a destination shows it: its mention, unless the tags give a text to show, or
    else a link to its profile. -/
def ofHandle (ctx : RenderContext) (r : Resolution Account Rendered) (h : Handle) : Rendered :=
  match (if r.label.isNone then ctx.site.handleMention h else none) with
  | some text => .ok (.ofText text)
  | none => ctx.link h.profile (shown r)

/-- **An account that has a handle is shown as it.** -/
theorem account_mastodon {r : Resolution Account Rendered} (hR : ctx.registry = .builtin)
    (hs : ctx.site ∈ Site.builtin) (hr : r.site = .site "mastodon") (ha : r.attr = .own name)
    (hn : Handle.parse? name.text = some h) : ctx.account r = ctx.ofHandle r h := by
  unfold account ofHandle
  rw [hr, hR]
  simp only [Registry.get?_mastodon, ha, profile, Account.points, Site.mention_mastodon hs hn,
    Site.profileUrl_mastodon hn]
  rfl

/-- The author is shown as a handle, or not at all without an account. -/
theorem self_mastodon (ctx : RenderContext) (hR : ctx.registry = .builtin)
    (hs : ctx.site = .mastodon)
    (hu : ∀ name, ctx.usernames.get? "mastodon" = some name → Handle.Readable name.text)
    (position : Position) :
    (ctx.usernames.get? "mastodon" = none ∧ ctx.self position = ctx.gap .self position) ∨
      ∃ name h, ctx.usernames.get? "mastodon" = some name ∧ Handle.parse? name.text = some h ∧
        ctx.self position = .ok (.ofText h.mention) := by
  have haccount : ctx.usernames.account? ctx.site.id =
      (ctx.usernames.get? "mastodon").map .own := by
    rw [hs]
    exact Usernames.account?_mastodon _
  cases hname : ctx.usernames.get? "mastodon" with
  | none => exact .inl ⟨rfl, self_of_none (by rw [haccount, hname]; rfl)⟩
  | some name =>
    obtain ⟨h, hread⟩ := hu name hname
    have hmem : ctx.site ∈ Site.builtin := by
      rw [hs]
      simp [Site.builtin]
    refine .inr ⟨name, h, rfl, hread, ?_⟩
    rw [self_of_account (hR ▸ hmem) (haccount.trans (congrArg _ hname)),
      account_mastodon hR hmem (by rw [hs]; rfl) rfl hread]
    simp [ofHandle, hs, Site.handleMention, Site.mastodon, Handle.mention]

end RenderContext

/-- The account of a user switch is shown as a handle where it is one on Mastodon. -/
theorem Node.switch_mastodon {ctx : RenderContext} {chain : Chain String (List Node)}
    {position : Position} {r : Resolution Account Rendered} (hR : ctx.registry = .builtin)
    (hs : ctx.site ∈ Site.builtin)
    (hchain : Accounts Account.HasHandle (.switch .user chain position))
    (hr : Chain.resolve (renderChain ctx chain) .user ctx.site.id = some r)
    (hsite : r.site = .site "mastodon") :
    ∃ h, Handle.parse? r.attr.text = some h ∧
      (switch .user chain position).render ctx = ctx.ofHandle r h := by
  obtain ⟨⟨b, hb, hbsite, hattr⟩, -⟩ := Chain.resolve_from hr
  rw [renderChain_eq_map] at hb
  obtain ⟨b₀, hb₀, rfl⟩ := List.mem_map.1 hb
  rw [renderBinding_eq] at hbsite hattr
  obtain ⟨h, hread⟩ := hchain b₀ hb₀ (hbsite.symm.trans hsite)
  refine ⟨h, hattr ▸ hread, ?_⟩
  rw [render, ← RenderContext.account_mastodon hR hs hsite hattr hread]
  unfold RenderContext.switch
  simp only [hr, hsite]

/-! ## Names that are no handles -/

/-- Sites that write alike, and differ at most in what they make of a user name on Mastodon
    that is no handle. -/
structure Site.AlikeOnHandles (s t : Site) : Prop where
  owner : s.toOwner = t.toOwner
  dialect : s.dialect = t.dialect
  nameStep : s.nameStep = t.nameStep
  profileUrl : ∀ name : CodePoints, (s.id = "mastodon" → Handle.Readable name.text) →
    s.profileUrl name = t.profileUrl name
  mention : ∀ (owner : Owner) (name : CodePoints),
    (owner.id = "mastodon" → Handle.Readable name.text) →
      s.mention owner name = t.mention owner name

theorem Site.AlikeOnHandles.refl (s : Site) : s.AlikeOnHandles s :=
  ⟨rfl, rfl, rfl, fun _ _ => rfl, fun _ _ _ => rfl⟩

theorem Site.AlikeOnHandles.id {s t : Site} (h : s.AlikeOnHandles t) : s.id = t.id :=
  congrArg Owner.id h.owner

/-- Sites that are alike one by one are found alike. -/
theorem Registry.get?_alikeOnHandles {R R' : Registry}
    (h : List.Forall₂ Site.AlikeOnHandles R.sites R'.sites) (id : String) :
    (R.get? id = none ∧ R'.get? id = none) ∨
      ∃ s t, R.get? id = some s ∧ R'.get? id = some t ∧ s.AlikeOnHandles t := by
  unfold get?
  generalize R.sites = sites, R'.sites = sites' at h
  induction h with
  | nil => exact .inl ⟨rfl, rfl⟩
  | @cons s t sites sites' hst _ ih =>
    rw [List.find?_cons, List.find?_cons, ← hst.id]
    cases s.id == id with
    | true => exact .inr ⟨s, t, rfl, rfl, hst⟩
    | false => exact ih

namespace RenderContext

variable {R R' : Registry} {s t : Site} {usernames : Usernames} {flags : List String}

theorem profile_alikeOnHandles (h : s.AlikeOnHandles t) {a : Account}
    (ha : s.id = "mastodon" → Handle.Readable a.text) : profile s a = profile t a := by
  cases a with
  | own name => rw [profile, profile, h.profileUrl name ha]
  | member m => rw [profile, profile, h.nameStep, h.profileUrl m.text ha]

/-- An account that has a handle, if it is one on Mastodon, is shown alike. -/
theorem account_alikeOnHandles (hR : List.Forall₂ Site.AlikeOnHandles R.sites R'.sites)
    (hst : s.AlikeOnHandles t) {r : Resolution Account Rendered}
    (hr : r.attr.HasHandle r.site) :
    account ⟨R, s, usernames, flags⟩ r = account ⟨R', t, usernames, flags⟩ r := by
  have hlink : link ⟨R, s, usernames, flags⟩ = link ⟨R', t, usernames, flags⟩ :=
    link_congr hst.dialect
  unfold account
  cases hsite : r.site with
  | generic => simp only [hlink]
  | site id =>
    obtain ⟨hnone, hnone'⟩ | ⟨owner, owner', hget, hget', howner⟩ :=
      Registry.get?_alikeOnHandles hR id
    · simp only [hnone, hnone']
    · obtain ⟨-, rfl⟩ := Registry.get?_eq_some_iff.1 hget
      have hread : owner.id = "mastodon" → Handle.Readable r.attr.text :=
        fun hid => hr (hid ▸ hsite)
      simp only [hget, hget', hlink, ← howner.owner, hst.mention _ _ hread,
        profile_alikeOnHandles howner hread]

end RenderContext

namespace Document

/-- **What sites make of names that are no handles does not show.** -/
theorem render_of_handles {R R' : Registry} {usernames : Usernames} {flags : List String}
    {ns : List Node} {target : String}
    (hR : List.Forall₂ Site.AlikeOnHandles R.sites R'.sites)
    (hns : Node.Every (Node.Accounts Account.HasHandle) ns)
    (hu : ∀ a, usernames.account? "mastodon" = some a → Handle.Readable a.text) :
    render R usernames flags ns target = render R' usernames flags ns target := by
  unfold render
  obtain ⟨hnone, hnone'⟩ | ⟨s, t, hs, ht, hst⟩ := Registry.get?_alikeOnHandles hR target
  · rw [hnone, hnone']
  · rw [hs, ht]
    obtain ⟨hmem, rfl⟩ := Registry.get?_eq_some_iff.1 hs
    obtain ⟨hmem', -⟩ := Registry.get?_eq_some_iff.1 ht
    have haccount : ∀ r : Resolution Account Rendered, r.attr.HasHandle r.site →
        RenderContext.account ⟨R, s, usernames, flags⟩ r =
          RenderContext.account ⟨R', t, usernames, flags⟩ r :=
      fun r hr => RenderContext.account_alikeOnHandles hR hst hr
    have halike : RenderContext.Alike Account.HasHandle ⟨R, s, usernames, flags⟩
        ⟨R', t, usernames, flags⟩ := by
      refine ⟨hst.id, hst.dialect, fun r hr => haccount r hr,
        RenderContext.self_congr hmem hmem' hst.id rfl fun a ha => haccount _ fun hsite => ?_⟩
      refine hu a ?_
      have hid : s.id = "mastodon" := BindingSite.ofId_injective hsite
      rw [← hid]
      exact ha
    exact Node.renderAll_congr halike hns Node.every_agrees

open Node

/-- **A handle is read as it is spelled, and every account on Mastodon is shown as the handle
    that its name spells.** Written out or mentioned, a handle is read again. Among the
    built-in sites, a user switch of a source that can be read shows an account on Mastodon by
    its handle, and so does `[self]` wherever a file gives the author an account there; what
    the sites would make of any other name does not show. -/
theorem handles_shown :
    (∀ s h, Handle.parse? s = some h ↔ h.Spelled s) ∧
    (∀ (name : CodePoints) h, Handle.parse? name.text = some h →
      Handle.parse? (h.user ++ "@" ++ h.host) = some h ∧
      Handle.parse? ("@" ++ h.user ++ "@" ++ h.host) = some h ∧
      ∃ text, Site.mastodon.mention Site.mastodon.toOwner name = some text ∧
        Handle.parse? text = some h) ∧
    ∀ source ns value loaded, parse .builtin source = .ok ns →
      UsernameFile.load .builtin value = .ok loaded → ∀ flags,
        (∀ site ∈ Site.builtin,
          let ctx : RenderContext := ⟨.builtin, site, loaded.usernames, flags⟩
          (∀ l, Part l ns → ∀ chain position, .switch .user chain position ∈ l →
            ∀ r, Chain.resolve (renderChain ctx chain) .user site.id = some r →
              r.site = .site "mastodon" →
              ∃ h, Handle.parse? r.attr.text = some h ∧
                (switch .user chain position).render ctx = ctx.ofHandle r h) ∧
          (site = .mastodon → ∀ position,
            (loaded.usernames.get? "mastodon" = none ∧
              (self position).render ctx = ctx.gap .self position) ∨
            ∃ name h, loaded.usernames.get? "mastodon" = some name ∧
              Handle.parse? name.text = some h ∧
              (self position).render ctx = .ok (.ofText h.mention))) ∧
        ∀ R', List.Forall₂ Site.AlikeOnHandles Registry.builtin.sites R'.sites → ∀ target,
          render R' loaded.usernames flags ns target =
            render .builtin loaded.usernames flags ns target := by
  refine ⟨fun _ _ => Handle.parse?_eq_some_iff, fun name h hread => ?_, ?_⟩
  · obtain ⟨hplain, hsigned⟩ := Handle.parse?_written hread
    refine ⟨hplain, hsigned, h.mention, ?_, Handle.parse?_mention hread⟩
    rw [Site.mention_mastodon (by simp [Site.builtin]) hread]
    rfl
  intro source ns value loaded hparse hload flags
  have hns := every_hasHandle hparse
  have hname : ∀ name, loaded.usernames.get? "mastodon" = some name → Handle.Readable name.text :=
    fun name hname => UsernameFile.readable_of_load hload hname
  refine ⟨fun site hs => ?_, fun R' hR' target => ?_⟩
  · intro ctx
    refine ⟨fun l hl chain position hn r hr hsite => ?_, fun hmastodon position => ?_⟩
    · exact switch_mastodon rfl hs (hns l hl _ hn) hr hsite
    · rw [Node.render]
      exact ctx.self_mastodon rfl hmastodon hname position
  · refine (render_of_handles hR' hns fun a ha => ?_).symm
    rw [Usernames.account?_mastodon] at ha
    obtain ⟨name, hget, rfl⟩ := Option.map_eq_some_iff.1 ha
    exact hname name hget

/-- The author and somebody else on Mastodon, among sites that would shout at a name that is no
    handle. -/
theorem handles_shown_shouting :
    let shouting : Site := { Site.mastodon with
      profileUrl := fun name =>
        if (Handle.parse? name.text).isSome then Site.mastodon.profileUrl name else "NO HANDLE" }
    let value : Json :=
      .object [(CodePoints.ofString "mastodon", .string (.ofString " @a@b.c "))]
    ∃ R' ns loaded, R'.sites = Site.builtin.dropLast ++ [shouting] ∧
      parse .builtin "[self][/self] [mastodon= x@y.z ][/mastodon]" = .ok ns ∧
      UsernameFile.load .builtin value = .ok loaded ∧
      ∀ target, render R' loaded.usernames [] ns target =
        render .builtin loaded.usernames [] ns target := by
  intro shouting value
  have halike : Site.mastodon.AlikeOnHandles shouting := by
    refine ⟨rfl, rfl, rfl, fun name hread => ?_, fun _ _ _ => rfl⟩
    obtain ⟨h, hread⟩ := hread rfl
    simp [shouting, hread]
  have hR : Registry.conflict? [] (Site.builtin.dropLast ++ [shouting]) = none := by
    decide +kernel
  have hsites : List.Forall₂ Site.AlikeOnHandles Registry.builtin.sites
      (Site.builtin.dropLast ++ [shouting]) :=
    .cons (.refl _) (.cons (.refl _) (.cons (.refl _) (.cons (.refl _) (.cons (.refl _)
      (.cons (.refl _) (.cons halike .nil))))))
  have hok : (parse .builtin "[self][/self] [mastodon= x@y.z ][/mastodon]").isOk = true := by
    decide +kernel
  have hload : UsernameFile.load .builtin value = .ok ⟨[("mastodon", .ofString "@a@b.c")], []⟩ := by
    decide +kernel
  cases hparse : parse .builtin "[self][/self] [mastodon= x@y.z ][/mastodon]" with
  | error e =>
    rw [hparse] at hok
    cases hok
  | ok ns =>
    obtain ⟨-, hsame⟩ := handles_shown.2.2 _ _ _ _ hparse hload []
    exact ⟨⟨_, hR⟩, ns, _, rfl, rfl, hload, hsame ⟨_, hR⟩ hsites⟩

end Document

end Crosspost
