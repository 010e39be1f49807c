/-
  What is shown for accounts.

  * `Rendered.IsText`: text without gaps, as which every account of a registered site
    with an address is shown (`RenderContext.isText_account`);
  * `RenderContext.self_of_account`, `RenderContext.self_of_none`: among the accounts of
    all sites `[self]` finds that of the destination and no other one;
  * `Usernames.obstacle?` is what may keep it from being shown.
-/
import Mathlib.Data.List.Nodup
import Crosspost.Proofs.Description.Switches

namespace Crosspost

/-! ## Written texts -/

namespace Rendered

/-- Text without gaps. -/
def IsText (r : Rendered) : Prop := ∃ s, r = .ofText s

theorem isText_ofText (s : String) : IsText (.ofText s) := ⟨s, rfl⟩

theorem IsText.map {r : Rendered} (h : r.IsText) (f : String → String) :
    IsText (Except.map (Fragment.mapText f) r) := by
  obtain ⟨s, rfl⟩ := h
  exact ⟨f s, rfl⟩

theorem IsText.gaps_eq {r : Rendered} (h : r.IsText) :
    Except.map Fragment.gaps r = .ok [] := by
  obtain ⟨s, rfl⟩ := h
  rfl

theorem gaps_mapText (f : String → String) (r : Rendered) :
    Except.map Fragment.gaps (Except.map (Fragment.mapText f) r) = Except.map Fragment.gaps r := by
  cases r <;> rfl

end Rendered

namespace RenderContext

open Rendered

variable {ctx : RenderContext} {r : Resolution Account Rendered}

theorem isText_shown (hl : ∀ l, r.label = some l → l.IsText) : (shown r).IsText := by
  unfold shown Resolution.display
  cases h : r.label with
  | some l => exact hl l h
  | none =>
    rw [Option.getD_none]
    split_ifs
    · exact isText_ofText ""
    · exact isText_ofText _

/-- An account of a registered site whose profile has an address. -/
theorem isText_account {owner : Site} {url : String} (hs : r.site = .site owner.id)
    (ho : owner ∈ ctx.registry.sites) (hp : profile owner r.attr = .ok url)
    (hl : ∀ l, r.label = some l → l.IsText) : (ctx.account r).IsText := by
  unfold account
  rw [hs]
  simp only [Registry.get?_of_mem ho]
  split
  · exact isText_ofText _
  · rw [hp]
    exact (isText_shown hl).map _

theorem isText_generic (hs : r.site = .generic) (hl : ∀ l, r.label = some l → l.IsText) :
    (ctx.account r).IsText := by
  unfold account
  rw [hs]
  exact (isText_shown hl).map _

end RenderContext

/-! ## The author's own account -/

/-- The step that keeps the author's account out of the address of a profile: the account is
    a member, which is no text, and the site has no mention of it. -/
def Usernames.obstacle? (usernames : Usernames) (site : Site) : Option NameStep :=
  match usernames.account? site.id with
  | some (.member m) => if (site.mention site.toOwner m.text).isSome then none else site.nameStep
  | _ => none

theorem BindingSite.ofId_injective : Function.Injective ofId := by
  intro a b h
  unfold ofId at h
  split_ifs at h with ha hb hb
  · exact ha.trans hb.symm
  · exact site.inj h

namespace Usernames

variable {usernames : Usernames} {R : Registry} {site : Site} {δ : Type}

/-- A member stands for an account only where no name was given. -/
theorem account?_eq_member {id : String} {m : Member} :
    usernames.account? id = some (.member m) ↔
      usernames.get? id = none ∧ Member.ofName? id = some m := by
  unfold account? Held.find?
  cases usernames.get? id <;> simp

theorem mem_selfBindings {b : Binding Account δ} : b ∈ usernames.selfBindings R ↔
    ∃ s ∈ R.sites, ∃ a, usernames.account? s.id = some a ∧ b = ⟨.ofId s.id, a, none⟩ := by
  unfold selfBindings
  constructor
  · intro h
    obtain ⟨s, hs, hb⟩ := List.mem_filterMap.1 h
    obtain ⟨a, ha, rfl⟩ := Option.map_eq_some_iff.1 hb
    exact ⟨s, hs, a, ha, rfl⟩
  · rintro ⟨s, hs, a, ha, rfl⟩
    exact List.mem_filterMap.2 ⟨s, hs, Option.map_eq_some_iff.2 ⟨a, ha, rfl⟩⟩

theorem map_site_selfBindings :
    List.Sublist (((usernames.selfBindings R : Chain Account δ)).map (·.site))
      (R.sites.map fun s => .ofId s.id) := by
  unfold selfBindings
  induction R.sites with
  | nil => exact .slnil
  | cons s sites ih =>
    rw [List.filterMap_cons, List.map_cons]
    cases h : usernames.account? s.id with
    | none => exact .cons _ ih
    | some a => exact .cons_cons _ ih

theorem nodup_selfBindings :
    ((usernames.selfBindings R : Chain Account δ).map (·.site)).Nodup := by
  refine map_site_selfBindings.nodup ?_
  have hmap : R.sites.map (fun s => BindingSite.ofId s.id) = (R.sites.map (·.id)).map .ofId := by
    simp
  rw [hmap]
  exact List.Nodup.map BindingSite.ofId_injective R.ids_nodup

theorem resolve_selfChain? (target : String) :
    ((usernames.selfChain? R : Option (Chain Account δ)).bind (Chain.resolve · .user target)) =
      Chain.resolve (usernames.selfBindings R) .user target := by
  unfold selfChain?
  cases h : (usernames.selfBindings R : Chain Account δ) <;> rfl

theorem resolve_self {a : Account} (hs : site ∈ R.sites) (ha : usernames.account? site.id = some a) :
    Chain.resolve (usernames.selfBindings R : Chain Account δ) .user site.id =
      some ⟨.exact, .ofId site.id, a, none⟩ := by
  have hm : (⟨.ofId site.id, a, none⟩ : Binding Account δ) ∈ usernames.selfBindings R :=
    mem_selfBindings.2 ⟨site, hs, a, ha, rfl⟩
  have hnone : (usernames.selfBindings R : Chain Account δ).override? = none := by
    refine Chain.override?_eq_none fun b hb => ?_
    obtain ⟨_, _, _, _, rfl⟩ := mem_selfBindings.1 hb
    rfl
  rw [Chain.resolve_exact nodup_selfBindings hm rfl, hnone]

/-- Without an account on a site, no account of another site is taken for one there. -/
theorem rule_self_ne_exact (ha : usernames.account? site.id = none) :
    ∀ r ∈ Chain.resolve (usernames.selfBindings R : Chain Account δ) .user site.id,
      r.rule ≠ .exact := by
  refine Chain.rule_ne_exact fun b hb he => ?_
  obtain ⟨s, -, a, hs, rfl⟩ := mem_selfBindings.1 hb
  rw [BindingSite.ofId_injective he, ha] at hs
  cases hs

end Usernames

namespace RenderContext

open Rendered

variable {ctx : RenderContext} {position : Position}

theorem self_of_account {a : Account} (hs : ctx.site ∈ ctx.registry.sites)
    (ha : ctx.usernames.account? ctx.site.id = some a) :
    ctx.self position = ctx.account ⟨.exact, .ofId ctx.site.id, a, none⟩ := by
  unfold self
  rw [Usernames.resolve_selfChain?, Usernames.resolve_self hs ha]
  rfl

theorem self_of_none (ha : ctx.usernames.account? ctx.site.id = none) :
    ctx.self position = ctx.gap .self position := by
  unfold self
  rw [Usernames.resolve_selfChain?]
  cases h : Chain.resolve (ctx.usernames.selfBindings ctx.registry) .user ctx.site.id with
  | none => rfl
  | some r => exact if_neg (Usernames.rule_self_ne_exact ha r h)

theorem isText_own {name : CodePoints} (hs : ctx.site ∈ ctx.registry.sites) :
    (ctx.account ⟨.exact, .ofId ctx.site.id, .own name, none⟩).IsText := by
  by_cases hid : ctx.site.id = "generic"
  · exact isText_generic (if_pos hid) (by simp)
  · exact isText_account (if_neg hid) hs rfl (by simp)

/-- A member is shown unless its text has to go through something. -/
theorem gaps_account_member {m : Member} (hs : ctx.site ∈ ctx.registry.sites)
    (hm : Member.ofName? ctx.site.id = some m) :
    Except.map Fragment.gaps (ctx.account ⟨.exact, .ofId ctx.site.id, .member m, none⟩) =
      if (ctx.site.mention ctx.site.toOwner m.text).isSome then .ok []
      else match ctx.site.nameStep with
        | some step => .error (.notText step)
        | none => .ok [] := by
  -- no member is called like the catch-all
  have hid : BindingSite.ofId ctx.site.id = .site ctx.site.id := by
    refine if_neg fun he => ?_
    have hnone : Member.ofName? "generic" = none := by decide
    rw [he, hnone] at hm
    cases hm
  rw [account, hid]
  simp only [Registry.get?_of_mem hs, Option.isNone_none, if_true]
  cases hmention : ctx.site.mention ctx.site.toOwner m.text with
  | some text => simp [Account.points, hmention, Fragment.ofText, Except.map]
  | none =>
    cases hstep : ctx.site.nameStep with
    | none =>
      have hlink : (ctx.link (ctx.site.profileUrl m.text)
          (shown ⟨.exact, .site ctx.site.id, .member m, none⟩)).IsText :=
        (isText_shown (by simp)).map _
      simpa [Account.points, hmention, profile, hstep, bind, Except.bind] using hlink.gaps_eq
    | some step => simp [Account.points, hmention, profile, hstep, bind, Except.bind, Except.map]

end RenderContext

end Crosspost
