/-
  Descriptions under registries of the same sites.

  * `Document.parse_of_alike`, `Document.render_of_alike`: registries that look up alike read
    and show every description alike, refusals and `[self]` included;
  * `Registry.lookups_of_ofSites`: **a registry is made of the sites that fit, knows just their
    ids and spellings, and is the same to all that use it in whatever order they are given**.
-/
import Crosspost.Proofs.Description.Independence
import Crosspost.Proofs.Site.Construction

namespace Crosspost

variable {R R' : Registry}

/-! ## Reading -/

namespace Registry.Alike

open Reading

section
variable (h : Alike R R')
include h

theorem bindingSite? (name : String) : R.bindingSite? name = R'.bindingSite? name := by
  unfold Registry.bindingSite?
  rw [h.resolve]

theorem readOperand : Condition.readOperand R = Condition.readOperand R' := by
  funext subject operand
  unfold Condition.readOperand
  simp only [h.resolve]

theorem condition (expression : String) :
    Condition.parse R expression = Condition.parse R' expression := by
  unfold Condition.parse Condition.ofParts
  rw [h.readOperand]

theorem checkBinding : Reading.checkBinding R = Reading.checkBinding R' := by
  funext chain value
  unfold Reading.checkBinding
  simp only [h.get]

theorem nest : Reading.nest R = Reading.nest R' := by
  funext chain inner site
  unfold Reading.nest
  rw [h.checkBinding]

theorem leave : Reading.leave R = Reading.leave R' := by
  funext r frame nodes
  unfold Reading.leave closeChain
  rw [h.checkBinding]

theorem openNode : Reading.openNode R = Reading.openNode R' := by
  funext r o
  unfold Reading.openNode
  simp only [h.bindingSite?, h.condition]

theorem node : Reading.node R = Reading.node R' := by
  funext r t
  unfold Reading.node closeNode
  rw [h.openNode, h.leave]

theorem switchTag? : Reading.switchTag? R = Reading.switchTag? R' := by
  funext t
  unfold Reading.switchTag?
  simp only [h.bindingSite?]

theorem step : Reading.step R = Reading.step R' := by
  funext r t
  unfold Reading.step
  rw [h.node, h.switchTag?, h.nest]

end

end Registry.Alike

namespace Document

/-- **Registries that look up alike read every source alike.** -/
theorem parse_of_alike (h : Registry.Alike R R') (source : String) :
    parse R source = parse R' source := by
  unfold parse ofTokens
  rw [h.step]

/-! ## Showing -/

theorem account_of_alike (h : Registry.Alike R R') {site : Site} {usernames : Usernames}
    {flags : List String} (r : Resolution Account Rendered) :
    RenderContext.account ⟨R, site, usernames, flags⟩ r =
      RenderContext.account ⟨R', site, usernames, flags⟩ r := by
  unfold RenderContext.account
  simp only [h.get]
  rfl

/-- **Registries that look up alike show every description alike.** -/
theorem render_of_alike (h : Registry.Alike R R') (usernames : Usernames) (flags : List String)
    (ns : List Node) (target : String) :
    render R usernames flags ns target = render R' usernames flags ns target := by
  unfold render
  rw [h.get]
  cases hget : R'.get? target with
  | none => rfl
  | some site =>
    have hs' : site ∈ R'.sites := (Registry.get?_eq_some_iff.1 hget).1
    have hs : site ∈ R.sites := (Registry.get?_eq_some_iff.1 ((h.get target).trans hget)).1
    have halike : RenderContext.Alike (fun _ _ => True) ⟨R, site, usernames, flags⟩
        ⟨R', site, usernames, flags⟩ :=
      -- only the account at the destination counts, so that the order of the sites does not
      ⟨rfl, rfl, fun r _ => account_of_alike h r,
        RenderContext.self_congr hs hs' rfl rfl fun _ _ => account_of_alike h _⟩
    exact Node.renderAll_congr halike (Node.every_accounts fun _ _ => trivial) Node.every_agrees

end Document

/-! ## Sites in any order -/

namespace Registry

/-- **Sites make a registry exactly if they fit.** It lists them in the order they were given,
    knows their ids and no others, finds the one site that is known under a spelling, and
    lists the spellings in strictly ascending order. The same sites in another order make a
    registry as well, which looks up, reads and shows everything alike. -/
theorem lookups_of_ofSites (sites : List Site) :
    ((∃ R, ofSites sites = .ok R) ↔ (sites.map (·.id)).Nodup ∧
      ∀ s ∈ sites, ∀ t ∈ sites, ∀ key, s.Named key → t.Named key → s = t) ∧
    (∀ sites', sites'.Perm sites →
      ((∃ R, ofSites sites' = .ok R) ↔ ∃ R, ofSites sites = .ok R)) ∧
    ∀ R, ofSites sites = .ok R →
      R.sites = sites ∧
      (∀ name s, R.resolve? name = some s ↔
        s ∈ sites ∧ s.Named (Text.lower (Text.trim name))) ∧
      (∀ name, R.resolve? name = none ↔
        ∀ s ∈ sites, ¬ s.Named (Text.lower (Text.trim name))) ∧
      (∀ id s, R.get? id = some s ↔ s ∈ sites ∧ s.id = id) ∧
      (∀ id, R.has id = true ↔ ∃ s ∈ sites, s.id = id) ∧
      (∀ key, key ∈ R.aliases ↔ ∃ s ∈ sites, s.Named key) ∧
      R.aliases.Pairwise (fun a b => Text.units a < Text.units b) ∧
      ∀ sites', sites'.Perm sites → ∃ R', ofSites sites' = .ok R' ∧
        (∀ name, R'.resolve? name = R.resolve? name) ∧ (∀ id, R'.get? id = R.get? id) ∧
        R'.aliases = R.aliases ∧
        (∀ source, Document.parse R' source = Document.parse R source) ∧
        ∀ usernames flags ns target, Document.render R' usernames flags ns target =
          Document.render R usernames flags ns target := by
  have hfits : ∀ sites, (∃ R, ofSites sites = .ok R) ↔ Fits sites := fun _ => exists_ofSites_iff
  refine ⟨?_, fun sites' hp => ?_, fun R hR => ?_⟩
  · rw [hfits]
    exact ⟨fun h => ⟨h.ids, h.named⟩, fun h => ⟨h.1, h.2⟩⟩
  · rw [hfits, hfits]
    exact ⟨fun h => h.perm hp.symm, fun h => h.perm hp⟩
  · have hsites := ofSites_eq_ok_iff.1 hR
    subst hsites
    refine ⟨rfl, fun _ _ => resolve?_eq_some_iff, fun _ => resolve?_eq_none_iff,
      fun _ _ => get?_eq_some_iff, fun _ => has_iff, fun _ => mem_aliases_iff, pairwise_aliases,
      fun sites' hp => ?_⟩
    obtain ⟨R', hR'⟩ := exists_ofSites_iff.2 (R.fits.perm hp)
    have hmem : ∀ s, s ∈ R'.sites ↔ s ∈ R.sites := by
      intro s
      rw [ofSites_eq_ok_iff.1 hR']
      exact hp.mem_iff
    have halike := alike_of_mem hmem
    exact ⟨R', hR', halike.resolve, halike.get, aliases_eq_of_mem hmem,
      Document.parse_of_alike halike, Document.render_of_alike halike⟩

/-- Sites with repeated aliases in mixed letter case, and the same sites the other way
    round. -/
theorem lookups_of_ofSites_mixed :
    let a : Site := { Site.weasyl with aliases := ["W", "w", "Weasyl"] }
    let b : Site := { Site.twitter with aliases := ["Tw", "X"] }
    ∃ R R', ofSites [a, b] = .ok R ∧ ofSites [b, a] = .ok R' ∧
      (∀ name, R'.resolve? name = R.resolve? name) ∧
      (∀ source, Document.parse R' source = Document.parse R source) ∧
      ∀ usernames flags ns target, Document.render R' usernames flags ns target =
        Document.render R usernames flags ns target := by
  intro a b
  have hnone : conflict? [] [a, b] = none := by decide +kernel
  obtain ⟨R, hR⟩ : ∃ R, ofSites [a, b] = .ok R := ⟨⟨_, hnone⟩, ofSites_eq_ok_iff.2 rfl⟩
  obtain ⟨-, -, -, -, -, -, -, horder⟩ := (lookups_of_ofSites [a, b]).2.2 R hR
  obtain ⟨R', hR', hresolve, -, -, hparse, hrender⟩ := horder [b, a] (List.Perm.swap a b [])
  exact ⟨R, R', hR, hR', hresolve, hparse, hrender⟩

end Registry

end Crosspost
