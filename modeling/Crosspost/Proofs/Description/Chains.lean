/-
  Which binding of a chain applies.

  In a chain with different sites the binding of the destination applies, then the
  generic one, and then, among user names, the innermost one.

  * `Chain.resolve_exact`, `Chain.resolve_generic`, `Chain.resolve_innermost` and
    `Chain.resolve_eq_none` are these cases;
  * `Chain.override?_concat`: the text for every site, where only the innermost tag
    has a text;
  * `Chain.Misses`: the chain has nothing for a destination, which leaves the innermost
    binding among user names and none among addresses;
  * `Chain.resolve_map`: which binding applies does not depend on what the bindings hold.
-/
import Mathlib.Tactic.Common
import Crosspost.Description.Chain

namespace Crosspost

/-- A binding with its attribute and its text passed through functions. -/
def Binding.map {α β δ ε : Type} (f : α → β) (g : δ → ε) (b : Binding α δ) : Binding β ε :=
  ⟨b.site, f b.attr, b.display.map g⟩

/-- A resolution with its attribute and its text passed through functions. -/
def Resolution.map {α β δ ε : Type} (f : α → β) (g : δ → ε) (r : Resolution α δ) :
    Resolution β ε :=
  ⟨r.rule, r.site, f r.attr, r.label.map g⟩

namespace Chain

variable {α δ : Type}

theorem find?_of_mem {chain : Chain α δ} {b : Binding α δ} (h : b ∈ chain)
    (hd : (chain.map (·.site)).Nodup) : chain.find? b.site = some b := by
  unfold find?
  induction chain with
  | nil => simp at h
  | cons a chain ih =>
    rw [List.map_cons, List.nodup_cons] at hd
    obtain rfl | hm := List.mem_cons.1 h
    · simp
    · have hne : a.site ≠ b.site := fun he => hd.1 (List.mem_map.2 ⟨b, hm, he.symm⟩)
      rw [List.find?_cons_of_neg (by simpa using hne), ih hm hd.2]

theorem find?_eq_none {chain : Chain α δ} {site : BindingSite} :
    chain.find? site = none ↔ ∀ b ∈ chain, b.site ≠ site := by
  simp [find?]

/-- Bindings without a text add none. -/
theorem override?_eq_none {chain : Chain α δ} (h : ∀ b ∈ chain, b.display = none) :
    chain.override? = none := by
  rw [override?, List.findSome?_eq_none_iff]
  intro b hb
  simp [h b (List.mem_reverse.1 hb)]

theorem override?_concat {outer : Chain α δ} (h : ∀ b ∈ outer, b.display = none)
    (b : Binding α δ) :
    override? (outer ++ [b]) = if b.site = .generic then none else b.display := by
  have ho : outer.reverse.findSome? (fun b => if b.site = .generic then none else b.display) = none :=
    override?_eq_none h
  rw [override?, List.reverse_append, List.findSome?_append, ho]
  simp

variable {chain : Chain α δ} {kind : SwitchKind} {target : String}

theorem resolve_exact {b : Binding α δ} (hd : (chain.map (·.site)).Nodup) (h : b ∈ chain)
    (ht : b.site = .ofId target) :
    chain.resolve kind target = some ⟨.exact, b.site, b.attr, chain.override?⟩ := by
  unfold resolve
  rw [← ht, find?_of_mem h hd]

theorem resolve_generic {b : Binding α δ} (hd : (chain.map (·.site)).Nodup)
    (ht : ∀ b ∈ chain, b.site ≠ .ofId target) (h : b ∈ chain) (hg : b.site = .generic) :
    chain.resolve kind target = some ⟨.generic, .generic, b.attr, b.display.or chain.override?⟩ := by
  unfold resolve
  rw [find?_eq_none.2 ht, ← hg, find?_of_mem h hd]

theorem resolve_innermost {outer : Chain α δ} {b : Binding α δ}
    (ht : ∀ a ∈ outer ++ [b], a.site ≠ .ofId target) (hg : ∀ a ∈ outer ++ [b], a.site ≠ .generic) :
    resolve (outer ++ [b]) .user target =
      some ⟨.innermost, b.site, b.attr, override? (outer ++ [b])⟩ := by
  unfold resolve
  rw [find?_eq_none.2 ht, find?_eq_none.2 hg]
  simp

theorem resolve_eq_none (ht : ∀ b ∈ chain, b.site ≠ .ofId target)
    (hg : ∀ b ∈ chain, b.site ≠ .generic) : chain.resolve .siteurl target = none := by
  unfold resolve
  rw [find?_eq_none.2 ht, find?_eq_none.2 hg]

/-! ## Chains with nothing for a destination -/

/-- No binding of a chain is for the destination, and none is generic. -/
def Misses (chain : Chain α δ) (target : String) : Prop :=
  ∀ b ∈ chain, b.site ≠ .ofId target ∧ b.site ≠ .generic

instance : Decidable (chain.Misses target) :=
  inferInstanceAs (Decidable (∀ b ∈ chain, b.site ≠ .ofId target ∧ b.site ≠ .generic))

theorem misses_congr {α' δ' : Type} {other : Chain α' δ'}
    (h : chain.map (·.site) = other.map (·.site)) : chain.Misses target ↔ other.Misses target := by
  have hmap : ∀ {α δ : Type} (c : Chain α δ),
      c.Misses target ↔ ∀ s ∈ c.map (·.site), s ≠ .ofId target ∧ s ≠ .generic := by
    intro α δ c
    simp [Misses]
  rw [hmap, hmap, h]

theorem resolve_user_of_misses (h : chain.Misses target) : chain.resolve .user target =
    chain.getLast?.map fun b => ⟨.innermost, b.site, b.attr, chain.override?⟩ := by
  unfold resolve
  rw [find?_eq_none.2 fun b hb => (h b hb).1, find?_eq_none.2 fun b hb => (h b hb).2]
  cases chain.getLast? <;> rfl

theorem resolve_siteurl_of_misses (h : chain.Misses target) :
    chain.resolve .siteurl target = none :=
  resolve_eq_none (fun b hb => (h b hb).1) fun b hb => (h b hb).2

/-- Only the destination's own binding is picked as such. -/
theorem rule_ne_exact (h : ∀ b ∈ chain, b.site ≠ .ofId target) :
    ∀ r ∈ chain.resolve kind target, r.rule ≠ .exact := by
  intro r hr
  unfold resolve at hr
  rw [find?_eq_none.2 h] at hr
  split at hr
  · next he => cases he
  · split at hr
    · cases hr
      simp
    · split at hr
      · cases hr
        simp
      · cases hr

/-- What is picked from a chain that has something for the destination. -/
theorem resolve_of_not_misses (kind : SwitchKind) (h : ¬ chain.Misses target) :
    ∃ r, chain.resolve kind target = some r ∧ (r.site = .generic ∨ r.site = .ofId target) := by
  unfold resolve
  cases he : chain.find? (.ofId target) with
  | some b => exact ⟨_, rfl, .inr rfl⟩
  | none =>
    cases hg : chain.find? .generic with
    | some b => exact ⟨_, rfl, .inl rfl⟩
    | none => exact absurd (fun b hb => ⟨find?_eq_none.1 he b hb, find?_eq_none.1 hg b hb⟩) h

theorem exists_of_override? {l : δ} (h : chain.override? = some l) :
    ∃ b ∈ chain, b.display = some l := by
  obtain ⟨b, hb, hl⟩ := List.exists_of_findSome?_eq_some h
  split_ifs at hl
  exact ⟨b, List.mem_reverse.1 hb, hl⟩

/-- What is picked is made of bindings of the chain. -/
theorem resolve_from {r : Resolution α δ} (h : chain.resolve kind target = some r) :
    (∃ b ∈ chain, r.site = b.site ∧ r.attr = b.attr) ∧
      ∀ l, r.label = some l → ∃ b ∈ chain, b.display = some l := by
  unfold resolve at h
  split at h
  · next b hb =>
    cases h
    have hsite : b.site = .ofId target := by simpa using List.find?_some hb
    exact ⟨⟨b, List.mem_of_find?_eq_some hb, hsite.symm, rfl⟩, fun l hl => exists_of_override? hl⟩
  · split at h
    · next b hb =>
      cases h
      have hm : b ∈ chain := List.mem_of_find?_eq_some hb
      have hsite : b.site = .generic := by simpa using List.find?_some hb
      refine ⟨⟨b, hm, hsite.symm, rfl⟩, fun l hl => ?_⟩
      rcases Option.or_eq_some_iff.1 hl with hl | ⟨-, hl⟩
      · exact ⟨b, hm, hl⟩
      · exact exists_of_override? hl
    · split at h
      · next b hb =>
        cases h
        exact ⟨⟨b, List.mem_of_getLast? hb, rfl, rfl⟩, fun l hl => exists_of_override? hl⟩
      · cases h

/-! ## Bindings passed through functions -/

section
variable {β ε : Type} (f : α → β) (g : δ → ε)

theorem find?_map (chain : Chain α δ) (site : BindingSite) :
    find? (chain.map (Binding.map f g)) site = (chain.find? site).map (Binding.map f g) := by
  simp only [find?, List.find?_map]
  rfl

theorem override?_map (chain : Chain α δ) :
    override? (chain.map (Binding.map f g)) = chain.override?.map g := by
  unfold override?
  rw [← List.map_reverse]
  induction chain.reverse with
  | nil => rfl
  | cons b bs ih =>
    rw [List.map_cons, List.findSome?_cons, List.findSome?_cons, ih]
    by_cases hg : b.site = .generic
    · simp [Binding.map, hg]
    · cases hd : b.display <;> simp [Binding.map, hg, hd]

/-- Which binding is picked does not depend on attributes and texts. -/
theorem resolve_map (chain : Chain α δ) (kind : SwitchKind) (target : String) :
    resolve (chain.map (Binding.map f g)) kind target =
      (chain.resolve kind target).map (Resolution.map f g) := by
  unfold resolve
  rw [find?_map, find?_map, override?_map, List.getLast?_map]
  cases chain.find? (.ofId target) with
  | some b => rfl
  | none =>
    cases chain.find? .generic with
    | some b =>
      obtain ⟨site, attr, display⟩ := b
      cases display <;> rfl
    | none =>
      cases kind with
      | siteurl => rfl
      | user => cases chain.getLast? <;> rfl

end

end Chain

end Crosspost
