/-
  What of a description a destination shows, and what comes of it.

  * `Node.liveAll target flags ns` lists the nodes shown at a destination in document
    order: those that no conditional leaves out, taken out of formatting and links;
  * `Node.gap?` is the gap that a live node leaves, and `Node.failure?` the reason why
    it cannot be written;
  * `Node.gaps_renderAll`: rendering sound nodes ends with the failure of the first live
    node that has one, and else with the gaps of all of them in order.
-/
import Crosspost.Proofs.Description.Accounts
import Crosspost.Proofs.Description.Depth

namespace Crosspost

/-! ## Live nodes -/

namespace Node

mutual
/-- The nodes shown for a node. A text in a binding holds nothing but markup, so that a
    switch stands for itself. -/
def live (target : String) (flags : List String) : Node → List Node
  | text value => [text value]
  | format _ children => liveAll target flags children
  | link _ children => liveAll target flags children
  | self position => [self position]
  | switch kind chain position => [switch kind chain position]
  | conditional condition whenTrue whenFalse =>
    if condition.holds target flags then liveAll target flags whenTrue
    else liveOption target flags whenFalse

/-- The nodes shown for a list. -/
def liveAll (target : String) (flags : List String) : List Node → List Node
  | [] => []
  | n :: ns => n.live target flags ++ liveAll target flags ns

/-- The nodes shown for a list that need not be there. -/
def liveOption (target : String) (flags : List String) : Option (List Node) → List Node
  | none => []
  | some ns => liveAll target flags ns
end

theorem Every.of_mem_liveAll {P : Node → Prop} {ns : List Node} (h : Every P ns)
    (target : String) (flags : List String) : ∀ n ∈ liveAll target flags ns, P n := by
  induction ns using list_induction with
  | nil => simp [liveAll]
  | cons n ns ihparts ih =>
    obtain ⟨hn, hparts, hns⟩ := every_cons.1 h
    have hpart : ∀ part ∈ n.parts, ∀ m ∈ liveAll target flags part, P m :=
      fun part hp => ihparts part hp (hparts part hp)
    intro m hm
    rw [liveAll] at hm
    rcases List.mem_append.1 hm with hm | hm
    · cases n with
      | format kind children => exact hpart children (List.mem_singleton_self _) m hm
      | link url children => exact hpart children (List.mem_singleton_self _) m hm
      | conditional condition yes no =>
        rw [live] at hm
        split_ifs at hm
        · exact hpart yes List.mem_cons_self m hm
        · cases no with
          | none => simp [liveOption] at hm
          | some no => exact hpart no (by simp [parts]) m hm
      | _ =>
        simp only [live, List.mem_singleton] at hm
        exact hm ▸ hn
    · exact ih hns m hm

end Node

/-! ## Gaps and failures of live nodes -/

/-- Wherever live nodes ask for the author's account at a site, it can be written. -/
def Usernames.Writable (usernames : Usernames) (site : Site) (live : List Node) : Prop :=
  usernames.obstacle? site = none ∨ ∀ position, .self position ∉ live

/-- A user chain with nothing for a destination, whose innermost site is not registered. -/
def Chain.Stranded {α δ : Type} (R : Registry) (target : String) (chain : Chain α δ) : Prop :=
  chain.Misses target ∧ ∃ b ∈ chain.getLast?, R.get? b.site.id = none

namespace Node

/-- The gap that a live node leaves at a destination. -/
def gap? (usernames : Usernames) (target : String) : Node → Option Gap
  | self position =>
    if (usernames.account? target).isNone then some ⟨.self, target, position⟩ else none
  | switch .siteurl chain position =>
    if Chain.Misses chain target then some ⟨.siteurl, target, position⟩ else none
  | _ => none

/-- Why a live node cannot be written at a destination. -/
def failure? (ctx : RenderContext) : Node → Option RenderError
  | self _ => (ctx.usernames.obstacle? ctx.site).map .notText
  | switch .user chain _ =>
    if Chain.Misses chain ctx.site.id then
      (chain.getLast?.filter fun b => (ctx.registry.get? b.site.id).isNone).map fun b =>
        .missingSite b.site.id
    else none
  | _ => none

/-- What comes of live nodes: the first failure, or all gaps. -/
def outcome (ctx : RenderContext) (live : List Node) : Except RenderError (List Gap) :=
  match live.findSome? (failure? ctx) with
  | some e => .error e
  | none => .ok (live.filterMap (gap? ctx.usernames ctx.site.id))

end Node

/-! ## Mentions of the author -/

namespace RenderContext

variable {ctx : RenderContext} {position : Position}

theorem gaps_self (hs : ctx.site ∈ ctx.registry.sites) :
    Except.map Fragment.gaps (ctx.self position) = Node.outcome ctx [.self position] := by
  cases ha : ctx.usernames.account? ctx.site.id with
  | none =>
    rw [self_of_none ha]
    simp [Node.outcome, Node.failure?, Node.gap?, Usernames.obstacle?, ha, gap, Except.map]
  | some a =>
    rw [self_of_account hs ha]
    cases a with
    | own name =>
      rw [(isText_own hs).gaps_eq]
      simp [Node.outcome, Node.failure?, Node.gap?, Usernames.obstacle?, ha]
    | member m =>
      rw [gaps_account_member hs (Usernames.account?_eq_member.1 ha).2]
      by_cases hmention : (ctx.site.mention ctx.site.toOwner m.text).isSome
      · simp [Node.outcome, Node.failure?, Node.gap?, Usernames.obstacle?, ha, hmention]
      · cases hstep : ctx.site.nameStep <;>
          simp [Node.outcome, Node.failure?, Node.gap?, Usernames.obstacle?, ha, hmention, hstep]

end RenderContext

/-! ## Switches -/

namespace Node

open Rendered RenderContext

variable {ctx : RenderContext}

/-- Text and formatting has neither gaps nor failures. -/
theorem isText_renderAll {ns : List Node} (h : OnlyMarkup ns) : (renderAll ctx ns).IsText := by
  change Every (·.isMarkup = true) ns at h
  induction ns using list_induction with
  | nil => exact ⟨"", rfl⟩
  | cons n ns ihparts ih =>
    obtain ⟨hn, hparts, hns⟩ := every_cons.1 h
    have hnode : (n.render ctx).IsText := by
      cases n with
      | text value =>
        rw [render]
        exact isText_ofText value
      | format kind children =>
        have hpart : children ∈ (format kind children).parts := List.mem_singleton_self _
        rw [render]
        exact (ihparts _ hpart (hparts _ hpart)).map _
      | _ => simp [isMarkup] at hn
    obtain ⟨s, hs⟩ := hnode
    obtain ⟨t, ht⟩ := ih hns
    refine ⟨s ++ t, ?_⟩
    rw [renderAll, hs, ht]
    rfl

variable {R : Registry} {kind : SwitchKind} {chain : Chain String (List Node)}

theorem renderBinding_eq (b : Binding String (List Node)) :
    renderBinding ctx b = ⟨b.site, .own b.attr, b.display.map (renderAll ctx)⟩ := by
  obtain ⟨site, attr, display⟩ := b
  rw [renderBinding]
  cases display <;> rfl

theorem map_site_renderChain : (renderChain ctx chain).map (·.site) = chain.map (·.site) := by
  simp [renderChain_eq_map, renderBinding_eq]

theorem misses_renderChain (ctx : RenderContext) {target : String} :
    Chain.Misses (renderChain ctx chain) target ↔ Chain.Misses chain target :=
  Chain.misses_congr map_site_renderChain

/-- What is picked from a written chain names an account and has a text without gaps. -/
theorem SoundChain.resolve {target : String} {r : Resolution Account Rendered}
    (h : SoundChain R kind chain) (hr : (renderChain ctx chain).resolve kind target = some r) :
    (∃ name, r.attr = .own name) ∧ ∀ l, r.label = some l → l.IsText := by
  obtain ⟨⟨b, hb, -, ha⟩, hl⟩ := Chain.resolve_from hr
  rw [renderChain_eq_map] at hb hl
  constructor
  · obtain ⟨b₀, -, rfl⟩ := List.mem_map.1 hb
    exact ⟨b₀.attr, by rw [ha, renderBinding_eq]⟩
  · intro l hlabel
    obtain ⟨b, hb, hd⟩ := hl l hlabel
    obtain ⟨b₀, hb₀, rfl⟩ := List.mem_map.1 hb
    rw [renderBinding_eq] at hd
    obtain ⟨ns, hns, rfl⟩ := Option.map_eq_some_iff.1 hd
    exact isText_renderAll (h.display b₀ hb₀ ns hns).1

/-- What is picked for the destination, or from a generic tag, is shown. -/
theorem isText_switch (hs : ctx.site ∈ ctx.registry.sites) (h : SoundChain R kind chain)
    (hm : ¬ Chain.Misses chain ctx.site.id) (position : Position) :
    (ctx.switch kind (renderChain ctx chain) position).IsText := by
  obtain ⟨r, hr, hsite⟩ := Chain.resolve_of_not_misses kind
    (mt (misses_renderChain ctx).1 hm)
  obtain ⟨⟨name, ha⟩, hl⟩ := h.resolve hr
  have hown : ∀ owner, profile owner r.attr = .ok (owner.profileUrl name) := by
    intro owner
    rw [ha]
    rfl
  unfold RenderContext.switch
  rw [hr]
  cases hg : r.site with
  | generic =>
    simp only [hg]
    exact (isText_shown hl).map _
  | site id =>
    simp only [hg]
    cases kind with
    | user =>
      have hid : r.site = .site ctx.site.id := by
        unfold BindingSite.ofId at hsite
        rcases hsite with hsite | hsite
        · rw [hsite] at hg
          cases hg
        · split_ifs at hsite
          · rw [hsite] at hg
            cases hg
          · exact hsite
      exact isText_account hid hs (hown _) hl
    | siteurl =>
      cases hlabel : r.label with
      | none => exact (isText_ofText "").map _
      | some l => exact (hl l hlabel).map _

/-- A chain with nothing for the destination links to its innermost account. -/
theorem gaps_innermost (h : SoundChain R .user chain) (hm : Chain.Misses chain ctx.site.id)
    (position : Position) :
    Except.map Fragment.gaps (ctx.switch .user (renderChain ctx chain) position) =
      outcome ctx [.switch .user chain position] := by
  obtain ⟨b, hb⟩ := Option.ne_none_iff_exists'.1 (mt List.getLast?_eq_none_iff.1 h.nonempty)
  obtain ⟨id, hid⟩ : ∃ id, b.site = .site id := by
    cases hsite : b.site with
    | generic => exact absurd hsite (hm b (List.mem_of_getLast? hb)).2
    | site id => exact ⟨id, rfl⟩
  have hr := Chain.resolve_user_of_misses ((misses_renderChain ctx).2 hm)
  rw [renderChain_eq_map, List.getLast?_map, hb, ← renderChain_eq_map, Option.map_some,
    Option.map_some, renderBinding_eq, hid] at hr
  obtain ⟨-, hl⟩ := h.resolve hr
  rw [RenderContext.switch, hr]
  change Except.map Fragment.gaps (ctx.account ⟨.innermost, .site id, .own b.attr, _⟩) = _
  have hfail : failure? ctx (.switch .user chain position) =
      if ctx.registry.get? id = none then some (.missingSite id) else none := by
    rw [failure?, if_pos hm, hb]
    by_cases ho : ctx.registry.get? id = none <;> simp [Option.filter, hid, BindingSite.id, ho]
  cases ho : ctx.registry.get? id with
  | none => simp [outcome, hfail, account, ho, Except.map]
  | some owner =>
    obtain ⟨hmem, rfl⟩ := Registry.get?_eq_some_iff.1 ho
    have htext : (ctx.account ⟨.innermost, .site owner.id, .own b.attr, _⟩).IsText :=
      isText_account rfl hmem rfl hl
    rw [htext.gaps_eq]
    simp [outcome, hfail, gap?, ho]

theorem gaps_switch (hs : ctx.site ∈ ctx.registry.sites) (h : SoundChain R kind chain)
    (position : Position) :
    Except.map Fragment.gaps (ctx.switch kind (renderChain ctx chain) position) =
      outcome ctx [.switch kind chain position] := by
  by_cases hm : Chain.Misses chain ctx.site.id
  · cases kind with
    | siteurl =>
      rw [RenderContext.switch, Chain.resolve_siteurl_of_misses ((misses_renderChain ctx).2 hm)]
      simp [outcome, failure?, gap?, hm, RenderContext.gap, Except.map]
    | user =>
      exact gaps_innermost h hm position
  · rw [(isText_switch hs h hm position).gaps_eq]
    cases kind <;> simp [outcome, failure?, gap?, hm]

/-! ## Sound nodes -/

theorem outcome_append (a b : List Node) : outcome ctx (a ++ b) =
    match outcome ctx a with
    | .error e => .error e
    | .ok gaps => Except.map (gaps ++ ·) (outcome ctx b) := by
  unfold outcome
  rw [List.findSome?_append]
  cases a.findSome? (failure? ctx) with
  | some e => rfl
  | none =>
    rw [Option.none_or]
    cases b.findSome? (failure? ctx) with
    | some e => rfl
    | none => simp [Except.map]

theorem gaps_renderAll_cons (n : Node) (ns : List Node) :
    Except.map Fragment.gaps (renderAll ctx (n :: ns)) =
      match Except.map Fragment.gaps (n.render ctx) with
      | .error e => .error e
      | .ok gaps => Except.map (gaps ++ ·) (Except.map Fragment.gaps (renderAll ctx ns)) := by
  rw [renderAll]
  cases n.render ctx with
  | error e => rfl
  | ok a => cases renderAll ctx ns <;> rfl

/-- What comes of a sound node is what comes of the nodes shown for it, if that holds of
    the lists inside it. -/
theorem gaps_render {n : Node} (hs : ctx.site ∈ ctx.registry.sites) (hn : n.Sound R)
    (hparts : ∀ part ∈ n.parts, Except.map Fragment.gaps (renderAll ctx part) =
      outcome ctx (liveAll ctx.site.id ctx.flags part)) :
    Except.map Fragment.gaps (n.render ctx) = outcome ctx (n.live ctx.site.id ctx.flags) := by
  cases n with
  | text value => rfl
  | format kind children =>
    rw [render, live, gaps_mapText]
    exact hparts _ (List.mem_singleton_self _)
  | link url children =>
    rw [render, live, RenderContext.link, gaps_mapText]
    exact hparts _ (List.mem_singleton_self _)
  | self position =>
    rw [render, live]
    exact gaps_self hs
  | switch kind chain position =>
    rw [render, live]
    exact gaps_switch hs hn position
  | conditional condition yes no =>
    rw [render, live]
    split_ifs
    · exact hparts _ List.mem_cons_self
    · cases no with
      | none => rfl
      | some no => exact hparts no (by simp [parts])

/-- Rendering ends with the failure of the first live node that has one, and else with
    the gaps of the live nodes. -/
theorem gaps_renderAll {ns : List Node} (ctx : RenderContext)
    (hs : ctx.site ∈ ctx.registry.sites) (h : Every (Sound R) ns) : Except.map Fragment.gaps (renderAll ctx ns) =
      outcome ctx (liveAll ctx.site.id ctx.flags ns) := by
  induction ns using list_induction with
  | nil => rfl
  | cons n ns ihparts ih =>
    obtain ⟨hn, hparts, hns⟩ := every_cons.1 h
    have hnode := gaps_render hs hn fun part hp => ihparts part hp (hparts part hp)
    rw [gaps_renderAll_cons, hnode, ih hns, liveAll, outcome_append]

end Node

namespace Document

theorem every_sound {R : Registry} {source : String} {ns : List Node}
    (h : parse R source = .ok ns) : Node.Every (Node.Sound R) ns := by
  have hsound : Node.SoundList R .block ns :=
    Node.soundPhrase_of_derives (ofTokens_eq_ok_iff.1 h) (Token.apart_ofSource source)
  exact fun l hl n hn => ((hsound l hl).2 n hn).1

end Document

end Crosspost
