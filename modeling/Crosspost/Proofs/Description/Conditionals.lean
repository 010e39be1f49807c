/-
  Descriptions inside a conditional.

  A source that is read on its own is read between `[if=…]` and `[/if]` as well, where it stands
  at other positions; a destination shows all of it or nothing.

  * `Rendered.move f r`: what is written, with the positions of its gaps passed through `f`;
  * `Node.renderAll_move`: **moved nodes are shown as they are, with their gaps moved**;
  * `Conditional.source`: a source between the tags of a condition, which
    `Conditional.parse_of_parse` reads and `Conditional.render_of_parse` shows.
-/
import Crosspost.Proofs.Description.Joining
import Crosspost.Proofs.Description.Live

namespace Crosspost

/-! ## Texts at other places -/

/-- A gap at another position. -/
def Gap.move (f : Position → Position) (g : Gap) : Gap := { g with position := f g.position }

/-- A fragment whose gaps are at other positions. -/
def Fragment.move (f : Position → Position) (a : Fragment) : Fragment :=
  { a with gaps := a.gaps.map (Gap.move f) }

/-- What is written, with its gaps at other positions. -/
def Rendered.move (f : Position → Position) (r : Rendered) : Rendered := r.map (Fragment.move f)

namespace RenderContext

variable {f : Position → Position} {ctx : RenderContext}

theorem link_move (url : String) (label : Rendered) :
    ctx.link url (label.move f) = (ctx.link url label).move f := by
  cases label <;> rfl

theorem shown_map (r : Resolution Account Rendered) :
    shown (r.map id (Rendered.move f)) = (shown r).move f := by
  obtain ⟨rule, site, attr, label⟩ := r
  cases label with
  | some l => rfl
  | none =>
    unfold shown Resolution.display
    cases rule <;> rfl

theorem account_map (r : Resolution Account Rendered) :
    ctx.account (r.map id (Rendered.move f)) = (ctx.account r).move f := by
  have hnone : (r.map id (Rendered.move f)).label.isNone = r.label.isNone := by
    simp [Resolution.map]
  unfold account
  rw [shown_map, hnone]
  cases hs : r.site with
  | generic =>
    simp only [Resolution.map, id_eq, hs]
    exact link_move _ _
  | site id =>
    simp only [Resolution.map, id_eq, hs]
    cases ctx.registry.get? id with
    | none => rfl
    | some owner =>
      simp only
      split
      · rfl
      · cases profile owner r.attr with
        | error e => rfl
        | ok url => exact link_move _ _

/-- The chain of the author's accounts gives no text. -/
theorem map_of_selfChain? {usernames : Usernames} {R : Registry}
    {chain : Chain Account Rendered} (h : usernames.selfChain? R = some chain) :
    chain.map (Binding.map id (Rendered.move f)) = chain := by
  have hchain : chain = usernames.selfBindings R := by
    unfold Usernames.selfChain? at h
    split at h
    · cases h
    · exact (Option.some.inj h).symm
  refine (List.map_congr_left fun b hb => ?_).trans (List.map_id chain)
  rw [hchain] at hb
  obtain ⟨site, -, hb⟩ := List.mem_filterMap.1 hb
  obtain ⟨account, -, rfl⟩ := Option.map_eq_some_iff.1 hb
  rfl

theorem self_move (position : Position) :
    ctx.self (f position) = (ctx.self position).move f := by
  unfold self
  cases hc : ctx.usernames.selfChain? ctx.registry with
  | none => rfl
  | some chain =>
    have hmap := map_of_selfChain? (f := f) hc
    rw [Option.bind_some]
    cases hr : chain.resolve .user ctx.site.id with
    | none => rfl
    | some r =>
      have hsame : r.map id (Rendered.move f) = r := by
        have h := Chain.resolve_map id (Rendered.move f) chain .user ctx.site.id
        rw [hmap, hr, Option.map_some, Option.some.injEq] at h
        exact h.symm
      simp only
      split_ifs
      · rw [← account_map, hsame]
      · rfl

theorem switch_move (kind : SwitchKind) (chain : Chain Account Rendered) (position : Position) :
    ctx.switch kind (chain.map (Binding.map id (Rendered.move f))) (f position) =
      (ctx.switch kind chain position).move f := by
  unfold switch
  rw [Chain.resolve_map]
  cases chain.resolve kind ctx.site.id with
  | none => rfl
  | some r =>
    simp only [Option.map_some]
    cases hs : r.site with
    | generic =>
      simp only [Resolution.map, id_eq, hs]
      rw [← link_move, ← shown_map, Resolution.map, id_eq, hs]
    | site id =>
      cases kind with
      | user =>
        simp only [← account_map, Resolution.map, id_eq, hs]
      | siteurl =>
        simp only [Resolution.map, id_eq, hs]
        rw [← link_move]
        cases r.label <;> rfl

end RenderContext

namespace Node

variable {f : Position → Position} {ctx : RenderContext}

/-- **Moved nodes are shown as they are, with their gaps moved.** -/
theorem renderAll_move (ns : List Node) :
    renderAll ctx (moveAll f ns) = (renderAll ctx ns).move f := by
  induction ns using list_induction with
  | nil => rfl
  | cons n ns ihparts ih =>
    have hnode : (n.move f).render ctx = (n.render ctx).move f := by
      cases n with
      | text value => rfl
      | format kind children =>
        rw [move, render, render, ihparts children (List.mem_singleton_self _)]
        cases renderAll ctx children <;> rfl
      | link url children =>
        rw [move, render, render, ihparts children (List.mem_singleton_self _)]
        exact RenderContext.link_move _ _
      | self position =>
        rw [move, render, render]
        exact RenderContext.self_move position
      | switch kind chain position =>
        have hchain : renderChain ctx (moveChain f chain) =
            (renderChain ctx chain).map (Binding.map id (Rendered.move f)) := by
          rw [renderChain_eq_map, renderChain_eq_map, moveChain_eq_map, List.map_map, List.map_map]
          refine List.map_congr_left fun b hb => ?_
          obtain ⟨site, attr, display⟩ := b
          simp only [Function.comp_apply, moveBinding, renderBinding_eq, Binding.map, id_eq]
          cases display with
          | none => rfl
          | some part =>
            rw [moveOption, Option.map_some, Option.map_some, Option.map_some,
              ihparts part (List.mem_filterMap.2 ⟨_, hb, rfl⟩)]
        rw [move, render, render, hchain]
        exact RenderContext.switch_move kind _ position
      | conditional condition yes no =>
        rw [move, render, render, ihparts yes List.mem_cons_self]
        split_ifs
        · rfl
        · cases no with
          | none => rfl
          | some no =>
            rw [moveOption, renderOption, renderOption, Option.getD_some, Option.getD_some,
              ihparts no (by simp [parts])]
    rw [moveAll, renderAll, renderAll, hnode, ih]
    cases n.render ctx with
    | error e => rfl
    | ok a =>
      cases renderAll ctx ns with
      | error e => rfl
      | ok b =>
        simp [Rendered.move, Except.map, Fragment.move, Fragment.append]

end Node

/-! ## Between the tags of a condition -/

namespace Conditional

open Grammar

/-- The opening tag of a condition. -/
def opening (expression : String) : Tag := ⟨false, "if".toList, some expression.toList⟩

/-- The closing tag of a condition. -/
def closing : Tag := ⟨true, "if".toList, none⟩

/-- A source between the tags of a condition. -/
def source (expression body : String) : String := (opening expression).raw ++ (body ++ closing.raw)

/-- Where the tokens of a source are when it stands between the tags of a condition. -/
def inside (expression body : String) : Position → Position :=
  behind (opening expression).raw (body ++ closing.raw)

theorem source_eq (expression body : String) :
    source expression body = "[if=" ++ expression ++ "]" ++ body ++ "[/if]" := by
  apply String.toList_injective
  simp [source, opening, closing, Tag.raw, Tag.chars]

theorem written_closing : closing.Written := by decide

theorem written_opening {expression : String} (h : Unbracketed expression) :
    (opening expression).Written := by
  have hname : ∀ c ∈ "if".toList, Tag.isNameChar c = true := List.all_eq_true.1 (by decide)
  refine ⟨by simp [opening], by simp [opening], hname, ?_⟩
  rintro _ ⟨⟩
  exact h

theorem name_opening {expression : String} : (opening expression).name = "if" :=
  (by decide : String.ofList (Chars.lower "if".toList) = "if")

theorem value?_opening {expression : String} (h : Text.Trimmed expression) :
    (opening expression).value? = some expression := by
  have htrim : String.ofList (Chars.trim expression.toList) = expression := h.2
  have ha : (opening expression).attr = some expression := congrArg some htrim
  rw [Tag.value?, ha]
  simp [h.1]

theorem ofSource_raw {t : Tag} (h : t.Written) : Token.ofSource t.raw = [⟨.tag t, ⟨0, 1, 1⟩⟩] := by
  have hscan := Lexeme.scanFrom_tag h [] []
  rw [List.append_nil] at hscan
  rw [Token.ofSource, Tag.raw, String.toList_ofList, Lexeme.scan, hscan]
  rfl

/-- The tokens of a source between two tags. -/
theorem ofSource_enclosed {o c : Tag} (ho : o.Written) (hc : c.Written) (body : String) :
    ∃ q, Token.ofSource (o.raw ++ (body ++ c.raw)) = ⟨.tag o, ⟨0, 1, 1⟩⟩ ::
      ((Token.ofSource body).map (Token.move (behind o.raw (body ++ c.raw))) ++ [⟨.tag c, q⟩]) := by
  have htail : Token.Meet body c.raw :=
    .inr (.inr (.inr ⟨_, by rw [ofSource_raw hc]; rfl, rfl⟩))
  have hhead : Token.Meet o.raw (body ++ c.raw) :=
    .inr (.inr (.inl ⟨_, by rw [ofSource_raw ho]; rfl, rfl⟩))
  refine ⟨behind o.raw (body ++ c.raw) (behind body c.raw ⟨0, 1, 1⟩), ?_⟩
  rw [Token.ofSource_append hhead, Token.ofSource_append htail, ofSource_raw ho, ofSource_raw hc]
  simp [Token.move]

variable {R : Registry} {expression : String} {condition : Condition} {body : String}
  {ns : List Node}

/-- A source is read between the tags of a condition, as it is on its own. -/
theorem parse_of_parse (hb : Unbracketed expression) (ht : Text.Trimmed expression)
    (hc : Condition.parse R expression = .ok condition) (h : Document.parse R body = .ok ns) :
    Document.parse R (source expression body) =
      .ok [.conditional condition (Node.moveAll (inside expression body) ns) none] := by
  obtain ⟨q, htokens⟩ := ofSource_enclosed (written_opening hb) written_closing body
  have hmoved := Document.ofTokens_move R (inside expression body) (Token.ofSource body)
  rw [← Document.parse, h, moved] at hmoved
  have hbody := Document.ofTokens_eq_ok_iff.1 hmoved
  let o : OpenTag := ⟨opening expression, ⟨0, 1, 1⟩⟩
  have hopens : Opens o "if" := ⟨rfl, name_opening⟩
  have hcloses : Closes o ⟨.tag closing, q⟩ := ⟨closing, rfl, rfl, rfl, rfl⟩
  have hnode := Derives.whenOnly hopens (value?_opening ht) hc hbody hcloses
  have hlist := Derives.cons hnode .nil
  rw [List.append_nil] at hlist
  rw [Document.parse, source, htokens]
  exact Document.ofTokens_eq_ok_iff.2 hlist

/-- What comes first in a source and cannot be read ends the reading, whatever follows. -/
theorem ofTokens_cons_eq_error {o : OpenTag} {e : ParseError} (ho : o.tag.closing = false)
    (h : Reading.openNode R .start o = .error e) (ts : List Token) :
    Document.ofTokens R (o.token :: ts) = .error e := by
  have hstep : Reading.step R .start o.token = .error e := by
    rw [Reading.start, Reading.step_open ho]
    exact h
  rw [Document.ofTokens_eq_run, Reading.run, hstep]
  rfl

/-- The tags of what is no condition are refused, whatever stands between them. -/
theorem parse_of_refused (hb : Unbracketed expression) (ht : Text.Trimmed expression)
    {e : ConditionError} (hc : Condition.parse R expression = .error e) (body : String) :
    Document.parse R (source expression body) = .error ⟨.condition e, ⟨0, 1, 1⟩⟩ := by
  obtain ⟨q, htokens⟩ := ofSource_enclosed (written_opening hb) written_closing body
  let o : OpenTag := ⟨opening expression, ⟨0, 1, 1⟩⟩
  have hkeyword : Keyword.ofName? o.tag.name = some .condition :=
    Keyword.ofName?_eq_some_iff.2 name_opening
  have hopen : Reading.openNode R .start o = .error ⟨.condition e, ⟨0, 1, 1⟩⟩ := by
    have hvalue : o.tag.value? = some expression := value?_opening ht
    have hinline : Reading.start.isInline = false := rfl
    simp [Reading.openNode, hkeyword, hvalue, hc, hinline, Reading.fault, o]
  rw [Document.parse, source, htokens]
  exact ofTokens_cons_eq_error rfl hopen _

/-- Where its condition holds a conditional is shown as its source is, at other positions, and
    as nothing elsewhere. -/
theorem render_conditional {site : Site} (hs : site ∈ R.sites) (usernames : Usernames)
    (flags : List String) (f : Position → Position) :
    Document.render R usernames flags [.conditional condition (Node.moveAll f ns) none] site.id =
      if condition.holds site.id flags then (Document.render R usernames flags ns site.id).move f
      else .ok .empty := by
  rw [Document.render, Document.render, Registry.get?_of_mem hs]
  simp only [Node.renderAll_singleton, Node.render, Node.renderAll_move]
  rfl

end Conditional

end Crosspost
