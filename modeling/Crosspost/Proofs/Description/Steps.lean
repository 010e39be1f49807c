/-
  What the steps of a reading do.

  One statement for each function of a reading says when it succeeds and with
  which result, in the terms of the grammar.

  * `Reading.openNode_eq_ok_iff`: what an opening tag may start in the place of a
    node (`Opened`);
  * `Reading.closeNode_eq_ok_iff`, `Reading.nest_eq_ok_iff` and
    `Reading.closeChain_eq_ok_iff`: the ends of lists and the tags of chains.
-/
import Mathlib.Tactic.Common
import Crosspost.Proofs.Description.Grammar
import Crosspost.Proofs.Results

namespace Crosspost

open Grammar

namespace Keyword

theorem ofName?_tagName (kind : FormatKind) : ofName? kind.tagName = some (.format kind) := by
  cases kind <;> decide

theorem ofName?_name (kind : SwitchKind) : ofName? kind.name = some (.wrapper kind) := by
  cases kind <;> decide

/-- The word of a keyword. -/
def word : Keyword → String
  | format kind => kind.tagName
  | otherwise => "else"
  | link => "url"
  | self => "self"
  | wrapper kind => kind.name
  | condition => "if"

theorem ofName?_eq_some_iff {name : String} {k : Keyword} :
    ofName? name = some k ↔ name = k.word := by
  constructor
  · intro h
    unfold ofName? at h
    split_ifs at h <;> cases h <;> assumption
  · rintro rfl
    cases k with
    | format kind => exact ofName?_tagName kind
    | wrapper kind => exact ofName?_name kind
    | _ => decide

theorem ofName?_eq_none_iff {name : String} : ofName? name = none ↔ name ∉ reserved := by
  unfold ofName? reserved
  constructor
  · intro h
    split_ifs at h
    simp [*]
  · intro h
    simp only [List.mem_cons, not_or, List.not_mem_nil, not_false_eq_true, and_true] at h
    simp [h]

end Keyword

namespace Reading

/-! ## Checks -/

@[simp] theorem fault_ne_ok {α : Type} {problem : Problem} {position : Position} {a : α} :
    fault problem position ≠ .ok a := by
  simp [fault]

theorem refuseAttr_eq_ok_iff {o : OpenTag} : refuseAttr o = .ok () ↔ o.tag.attr = none := by
  unfold refuseAttr
  cases h : o.tag.attr <;> simp

theorem expectClose_eq_ok_iff {o : OpenTag} {problem : Problem} {t : Token} :
    expectClose o problem t = .ok () ↔ Closes o t := by
  obtain ⟨lexeme, position⟩ := t
  cases lexeme with
  | text cs => simp [expectClose, Closes]
  | tag tag =>
    unfold expectClose Closes
    by_cases hc : tag.closing = true <;> by_cases hn : tag.name = o.tag.name <;>
      cases ha : tag.attr <;> simp [hc, hn, ha]

theorem problem?_eq_none_iff {chain : Chain String (List Node)} {site : BindingSite} :
    Chain.problem? chain site = none ↔ ∀ b ∈ chain, b.site ≠ site := by
  simp [Chain.problem?]

theorem checkBinding_eq_ok_iff {R : Registry} {chain : OpenChain} {attr : String} :
    checkBinding R chain attr = .ok () ↔
      Admits R chain.kind (chain.outer.map (·.2)) chain.site attr := by
  obtain ⟨kind, wrapper, outer, inner, site⟩ := chain
  unfold checkBinding Admits
  rw [← problem?_eq_none_iff]
  cases hp : Chain.problem? (outer.map (·.2)) site with
  | some problem => simp
  | none =>
    cases kind with
    | siteurl => simp
    | user =>
      cases site with
      | generic => simp
      | site id =>
        cases hg : R.get? id with
        | none => simp [hg]
        | some s => cases hs : s.checkUsername attr <;> simp [hg, hs]

theorem innermost_eq_ok_iff {chain : OpenChain} {ns : List Node}
    {b : Binding String (List Node)} :
    innermost chain ns = .ok b ↔ Leaf chain.inner chain.site ns b := by
  have htext : Text.trim (Node.plainText ns) = textOf ns := rfl
  constructor
  · intro h
    cases ha : chain.inner.tag.value? with
    | some attr =>
      by_cases ht : textOf ns = ""
      · simp only [innermost, htext, ha, ht, if_true, Except.ok.injEq] at h
        exact h ▸ .bare ha ht
      · simp only [innermost, htext, ha, ht, if_false, Except.ok.injEq] at h
        exact h ▸ .shown ha ht
    | none =>
      simp only [innermost, htext, ha] at h
      split_ifs at h with hg ht
      · simp at h
      · simp at h
      · cases h
        exact .echo ha hg ht
  · intro h
    cases h with
    | bare ha ht => simp [innermost, htext, ha, ht]
    | shown ha ht => simp [innermost, htext, ha, ht]
    | echo ha hg ht => simp [innermost, htext, ha, hg, ht]

/-! ## Chains -/

/-- The reading that waits for some closing tags, after which `done` is
    complete. -/
def awaitAll (r : Reading) (closings : List (OpenTag × Problem)) (done : Node) : Reading :=
  match closings with
  | [] => r.add done
  | (opener, problem) :: more => r.await (.close opener problem more done)

/-- A chain with `attr` in its innermost tag, and one more tag inside that. -/
def deepen (chain : OpenChain) (attr : String) (inner : OpenTag) (site : BindingSite) :
    OpenChain :=
  { chain with outer := chain.outer ++ [(chain.inner, ⟨chain.site, attr, none⟩)], inner, site }

@[simp] theorem deepen_kind (chain : OpenChain) (attr : String) (inner : OpenTag)
    (site : BindingSite) : (deepen chain attr inner site).kind = chain.kind := rfl

@[simp] theorem deepen_outer (chain : OpenChain) (attr : String) (inner : OpenTag)
    (site : BindingSite) : (deepen chain attr inner site).outer.map (·.2) =
      chain.outer.map (·.2) ++ [⟨chain.site, attr, none⟩] := by
  simp [deepen]

@[simp] theorem closings_deepen (chain : OpenChain) (attr : String) (inner : OpenTag)
    (site : BindingSite) : closings (deepen chain attr inner site) =
      (chain.inner, .switchWithMore chain.inner.tag.raw) :: closings chain := by
  unfold closings deepen
  cases chain.wrapper <;> simp

@[simp] theorem place_deepen (chain : OpenChain) (attr : String) (inner : OpenTag)
    (site : BindingSite) : place (deepen chain attr inner site) = place chain := by
  obtain ⟨kind, w, outer, o, s⟩ := chain
  cases w with
  | some w => rfl
  | none => cases outer <;> rfl

theorem nest_eq_ok_iff {R : Registry} {chain next : OpenChain} {inner : OpenTag}
    {site : BindingSite} :
    nest R chain inner site = .ok next ↔
      ∃ attr, chain.inner.tag.value? = some attr ∧
        Admits R chain.kind (chain.outer.map (·.2)) chain.site attr ∧
        next = deepen chain attr inner site := by
  unfold nest
  cases chain.inner.tag.value? with
  | none => simp
  | some attr =>
    simp only [then_eq_ok, checkBinding_eq_ok_iff, Option.some.injEq, exists_eq_left',
      Except.ok.injEq]
    exact and_congr_right fun _ => eq_comm

theorem closeChain_eq_ok_iff {R : Registry} {r next : Reading} {chain : OpenChain}
    {ns : List Node} :
    closeChain R r chain ns = .ok next ↔
      ∃ b, Leaf chain.inner chain.site ns b ∧
        Admits R chain.kind (chain.outer.map (·.2)) chain.site b.attr ∧
        next = r.awaitAll (closings chain)
          (.switch chain.kind (chain.outer.map (·.2) ++ [b]) (place chain)) := by
  unfold closeChain awaitAll
  rw [bind_eq_ok]
  refine exists_congr fun b => and_congr innermost_eq_ok_iff ?_
  rw [then_eq_ok]
  refine and_congr checkBinding_eq_ok_iff ?_
  cases closings chain with
  | nil => simp [eq_comm]
  | cons c more => simp [eq_comm]

/-! ## Opening tags -/

/-- What the opening tag `o` starts in the place of a node. -/
inductive Opened (R : Registry) (r : Reading) (o : OpenTag) : Reading → Prop
  | format {kind : FormatKind} : Keyword.ofName? o.tag.name = some (.format kind) →
      o.tag.attr = none → Opened R r o (r.enter (.format o kind))
  | link : Keyword.ofName? o.tag.name = some .link → r.isInline = false →
      Opened R r o (r.enter (.link o))
  | self : Keyword.ofName? o.tag.name = some .self → o.tag.attr = none → r.isInline = false →
      Opened R r o (r.await (.close o .selfNotEmpty [] (.self o.position)))
  | wrapper {kind : SwitchKind} : Keyword.ofName? o.tag.name = some (.wrapper kind) →
      o.tag.attr = none → r.isInline = false → Opened R r o (r.await (.chain o kind))
  | condition {expression : String} {condition : Condition} :
      Keyword.ofName? o.tag.name = some .condition → o.tag.value? = some expression →
      Condition.parse R expression = .ok condition → r.isInline = false →
      Opened R r o (r.enter (.whenTrue o condition))
  | switch {site : BindingSite} : Keyword.ofName? o.tag.name = none →
      R.bindingSite? o.tag.name = some site → r.isInline = false →
      Opened R r o (r.await (.nested ⟨.user, none, [], o, site⟩))

theorem unless_eq_ok {α : Type} {b : Bool} {problem : Problem} {position : Position}
    {x : Except ParseError α} {a : α} :
    (if b = true then fault problem position else x) = .ok a ↔ b = false ∧ x = .ok a := by
  cases b <;> simp

theorem opened_of_openNode {R : Registry} {r next : Reading} {o : OpenTag}
    (h : openNode R r o = .ok next) : Opened R r o next := by
  cases hk : Keyword.ofName? o.tag.name with
  | none =>
    cases hs : R.bindingSite? o.tag.name with
    | none => simp [openNode, hk, hs] at h
    | some site =>
      simp only [openNode, hk, hs] at h
      obtain ⟨hr, h⟩ := unless_eq_ok.1 (unless_eq_ok.1 h).2
      cases h
      exact .switch hk hs hr
  | some k =>
    simp only [openNode, hk] at h
    cases k with
    | format kind =>
      obtain ⟨ha, h⟩ := then_eq_ok.1 h
      cases h
      exact .format hk (refuseAttr_eq_ok_iff.1 ha)
    | otherwise => simp at h
    | link =>
      obtain ⟨hr, h⟩ := unless_eq_ok.1 (unless_eq_ok.1 h).2
      cases h
      exact .link hk hr
    | self =>
      obtain ⟨hr, h⟩ := unless_eq_ok.1 (unless_eq_ok.1 h).2
      obtain ⟨ha, h⟩ := then_eq_ok.1 h
      cases h
      exact .self hk (refuseAttr_eq_ok_iff.1 ha) hr
    | wrapper kind =>
      obtain ⟨hr, h⟩ := unless_eq_ok.1 (unless_eq_ok.1 h).2
      obtain ⟨ha, h⟩ := then_eq_ok.1 h
      cases h
      exact .wrapper hk (refuseAttr_eq_ok_iff.1 ha) hr
    | condition =>
      obtain ⟨hr, h⟩ := unless_eq_ok.1 (unless_eq_ok.1 h).2
      cases hv : o.tag.value? with
      | none => simp [hv] at h
      | some expression =>
        cases hc : Condition.parse R expression with
        | error e => simp [hv, hc] at h
        | ok condition =>
          simp only [hv, hc, Except.ok.injEq] at h
          subst h
          exact .condition hk hv hc hr

theorem openNode_of_opened {R : Registry} {r next : Reading} {o : OpenTag}
    (h : Opened R r o next) : openNode R r o = .ok next := by
  cases h with
  | format hk ha =>
    simp only [openNode, hk]
    exact then_eq_ok.2 ⟨refuseAttr_eq_ok_iff.2 ha, rfl⟩
  | link hk hr => simp [openNode, hk, hr]
  | self hk ha hr =>
    simp only [openNode, hk, hr]
    exact then_eq_ok.2 ⟨refuseAttr_eq_ok_iff.2 ha, rfl⟩
  | wrapper hk ha hr =>
    simp only [openNode, hk, hr]
    exact then_eq_ok.2 ⟨refuseAttr_eq_ok_iff.2 ha, rfl⟩
  | condition hk hv hc hr => simp [openNode, hk, hr, hv, hc]
  | switch hk hs hr => simp [openNode, hk, hr, hs]

theorem openNode_eq_ok_iff {R : Registry} {r next : Reading} {o : OpenTag} :
    openNode R r o = .ok next ↔ Opened R r o next :=
  ⟨opened_of_openNode, openNode_of_opened⟩

/-! ## Closing tags -/

theorem closeNode_eq_ok_iff {R : Registry} {r next : Reading} {tag : Tag} {position : Position} :
    closeNode R r tag position = .ok next ↔
      ∃ frame before levels, r.levels = (frame, before) :: levels ∧
        tag.name = frame.opener.tag.name ∧ tag.attr = none ∧
        leave R ⟨levels, before, .node⟩ frame r.nodes = .ok next := by
  unfold closeNode
  cases r.levels with
  | nil => simp
  | cons level levels =>
    obtain ⟨frame, before⟩ := level
    by_cases hn : tag.name = frame.opener.tag.name <;> cases ha : tag.attr <;> simp [hn]

end Reading

end Crosspost
