/-
  Names written as text.

  A switch tag without an attribute takes its trimmed text for one.

  * `Reading.step_switchTag`: whatever a reading expects, two opening tags of one site are
    taken alike;
  * `Document.tree?_echo`: **a name as the attribute of a tag without content makes the tree
    that it makes as the content of a tag without attribute**, in any surroundings.
-/
import Crosspost.Proofs.Description.Trees
import Crosspost.Proofs.Description.Unplaced

namespace Crosspost

open Grammar

namespace Reading

variable {R : Registry} {name : String} {site : BindingSite}

/-- An opening tag of a site, in the place of a node, does not fit or starts a chain. -/
theorem node_switchTag (levels : List (Frame × List Node)) (nodes : List Node)
    (hfree : name ∉ reserved) (hsite : R.bindingSite? name = some site) :
    (∀ o, Opens o name → ∃ e, node R ⟨levels, nodes, .node⟩ o.token = .error e) ∨
      ∀ o, Opens o name → node R ⟨levels, nodes, .node⟩ o.token =
        .ok ⟨levels, nodes, .nested ⟨.user, none, [], o, site⟩⟩ := by
  have hopen : ∀ o, Opens o name → node R ⟨levels, nodes, .node⟩ o.token =
      openNode R ⟨levels, nodes, .node⟩ o := fun o ho => step_open ho.1
  have hkeyword : Keyword.ofName? name = none := Keyword.ofName?_eq_none_iff.2 hfree
  cases hinline : isInline ⟨levels, nodes, .node⟩ with
  | true =>
    refine .inl fun o ho => ⟨⟨.notInline o.tag.raw, o.position⟩, ?_⟩
    rw [hopen o ho]
    simp [openNode, ho.2, hkeyword, hsite, hinline, fault]
  | false =>
    refine .inr fun o ho => ?_
    rw [hopen o ho]
    exact openNode_of_opened (.switch (ho.2 ▸ hkeyword) (ho.2 ▸ hsite) hinline)

/-- **Whatever is expected, an opening tag of a site does not fit or continues a chain**, and
    which chain this is depends on its name only. -/
theorem step_switchTag (r : Reading) (hfree : name ∉ reserved)
    (hsite : R.bindingSite? name = some site) :
    (∀ o, Opens o name → ∃ e, step R r o.token = .error e) ∨
      ∃ levels nodes kind wrapper outer, ∀ o, Opens o name →
        step R r o.token = .ok ⟨levels, nodes, .nested ⟨kind, wrapper, outer, o, site⟩⟩ := by
  have hswitch : ∀ o, Opens o name → OpensSwitch R o site := fun o ho => ⟨ho.1, ho.2 ▸ hsite⟩
  obtain ⟨levels, nodes, expectation⟩ := r
  cases expectation with
  | node =>
    exact (node_switchTag levels nodes hfree hsite).imp_right fun h => ⟨_, _, _, _, _, h⟩
  | chain wrapper kind =>
    exact .inr ⟨levels, nodes, kind, some wrapper, [], fun o ho => step_chain (hswitch o ho)⟩
  | nested chain =>
    -- the tag outside needs an attribute that its site takes, whatever the one inside is
    have hnest : ∀ o, Opens o name → step R ⟨levels, nodes, .nested chain⟩ o.token =
        (do .ok ⟨levels, nodes, .nested (← nest R chain o site)⟩) := fun o ho =>
      step_nested (hswitch o ho)
    cases hv : chain.inner.tag.value? with
    | none =>
      refine .inl fun o ho => ⟨⟨.nestedWithoutAttr chain.inner.tag.raw chain.inner.tag.name,
        chain.inner.position⟩, ?_⟩
      rw [hnest o ho]
      simp only [nest, hv]
      rfl
    | some value =>
      cases hcheck : checkBinding R chain value with
      | error e =>
        refine .inl fun o ho => ⟨e, ?_⟩
        rw [hnest o ho]
        simp only [nest, hv, hcheck]
        rfl
      | ok _ =>
        refine .inr ⟨levels, nodes, chain.kind, chain.wrapper,
          chain.outer ++ [(chain.inner, ⟨chain.site, value, none⟩)], fun o ho => ?_⟩
        rw [hnest o ho]
        simp only [nest, hv, hcheck]
        rfl
  | close opener problem more done =>
    refine .inl fun o ho => ⟨⟨problem, o.position⟩, ?_⟩
    simp only [step, OpenTag.token, expectClose, ho.1]
    rfl
  | otherwise condition yes =>
    have helse : ∀ o, Opens o name → isElse o.token = false := by
      intro o ho
      rw [← Bool.not_eq_true, isElse_eq_true_iff]
      rintro ⟨e, he, htoken⟩
      rw [token_inj] at htoken
      exact hfree (by rw [← ho.2, htoken, he.2]; decide)
    obtain h | h := node_switchTag levels (nodes ++ [.conditional condition yes none]) hfree hsite
    · refine .inl fun o ho => ?_
      rw [step_otherwise (helse o ho)]
      exact h o ho
    · refine .inr ⟨levels, nodes ++ [.conditional condition yes none], .user, none, [],
        fun o ho => ?_⟩
      rw [step_otherwise (helse o ho)]
      exact h o ho

/-! ## Closing a tag -/

/-- Two tags that make the same binding of what is in them complete the same chain. -/
theorem closeChain_congr {o i : OpenTag} {ms ns : List Node} (hpos : o.position = i.position)
    (h : ∀ b, Leaf o site ms b ↔ Leaf i site ns b) (r : Reading) (kind : SwitchKind)
    (wrapper : Option OpenTag) (outer : List (OpenTag × Binding String (List Node))) :
    (closeChain R r ⟨kind, wrapper, outer, o, site⟩ ms).toOption =
      (closeChain R r ⟨kind, wrapper, outer, i, site⟩ ns).toOption := by
  refine toOption_congr fun next => ?_
  have hclosings : closings ⟨kind, wrapper, outer, o, site⟩ =
      closings ⟨kind, wrapper, outer, i, site⟩ := rfl
  have hplace : place ⟨kind, wrapper, outer, o, site⟩ = place ⟨kind, wrapper, outer, i, site⟩ := by
    cases wrapper with
    | some w => rfl
    | none =>
      cases outer with
      | nil => exact hpos
      | cons b outer => rfl
  rw [closeChain_eq_ok_iff, closeChain_eq_ok_iff, hclosings, hplace]
  exact exists_congr fun b => and_congr_left' (h b)

theorem leaf_attr_iff {o : OpenTag} {value : String} (hv : o.tag.value? = some value)
    (b : Binding String (List Node)) : Leaf o site [] b ↔ b = ⟨site, value, none⟩ := by
  constructor
  · intro h
    cases h with
    | bare ha => rw [Option.some.inj (ha.symm.trans hv)]
    | shown _ ht => exact absurd rfl ht
    | echo ha => rw [hv] at ha; cases ha
  · rintro rfl
    exact .bare hv rfl

theorem leaf_text_iff {o : OpenTag} {value : String} (hv : o.tag.value? = none)
    (hsite : site ≠ .generic) (ht : Text.Trimmed value) (b : Binding String (List Node)) :
    Leaf o site [.text value] b ↔ b = ⟨site, value, none⟩ := by
  have htext : textOf [.text value] = value := by
    simp [textOf, Node.plainText, Node.plain, ht.2]
  constructor
  · intro h
    cases h with
    | bare ha => rw [hv] at ha; cases ha
    | shown ha => rw [hv] at ha; cases ha
    | echo => rw [htext]
  · rintro rfl
    have hecho : Leaf o site [.text value] ⟨site, textOf [.text value], none⟩ :=
      .echo hv hsite (by rw [htext]; exact ht.1)
    rwa [htext] at hecho

theorem run_closeChain {levels : List (Frame × List Node)} {nodes ns : List Node}
    {chain : OpenChain} {c : Token} (hc : Closes chain.inner c) (us : List Token) :
    run R ⟨(.label chain, nodes) :: levels, ns, .node⟩ (c :: us) =
      closeChain R ⟨levels, nodes, .node⟩ chain ns >>= fun next => next.run R us := by
  have hstep : step R ⟨(.label chain, nodes) :: levels, ns, .node⟩ c =
      closeChain R ⟨levels, nodes, .node⟩ chain ns := step_close hc
  rw [run, hstep]

/-- **A name is read alike as the attribute of a tag and as its text.** -/
theorem run_echo {id value : String} {o i : OpenTag} {c t : Token} (r : Reading)
    (hfree : name ∉ reserved) (hsite : R.bindingSite? name = some (.site id)) (ho : Opens o name)
    (hi : Opens i name) (hpos : o.position = i.position) (hc : Closes o c)
    (ho' : o.tag.value? = some value) (hi' : i.tag.value? = none) (ht : Text.Trimmed value)
    (htext : t.lexeme = .text value.toList) (us : List Token) :
    (r.run R (o.token :: c :: us)).toOption = (r.run R (i.token :: t :: c :: us)).toOption := by
  obtain h | ⟨levels, nodes, kind, wrapper, outer, h⟩ := step_switchTag r hfree hsite
  · obtain ⟨e, he⟩ := h o ho
    obtain ⟨e', he'⟩ := h i hi
    rw [run, run, he, he']
    rfl
  · have hc' : Closes i c := by
      obtain ⟨tag, hl, hclosing, hname, ha⟩ := hc
      exact ⟨tag, hl, hclosing, hname.trans (ho.2.trans hi.2.symm), ha⟩
    have hhead : ∀ j s, (c :: us).head? = some (OpenTag.token j) → ¬ OpensSwitch R j s :=
      fun j s hj => not_opensSwitch_of_closes hc (Option.some.inj hj)
    have hleft : run R ⟨levels, nodes, .nested ⟨kind, wrapper, outer, o, .site id⟩⟩ (c :: us) =
        closeChain R ⟨levels, nodes, .node⟩ ⟨kind, wrapper, outer, o, .site id⟩ [] >>=
          fun next => next.run R us := by
      rw [run_label (List.cons_ne_nil _ _) hhead, run_closeChain hc]
    have hright : run R ⟨levels, nodes, .nested ⟨kind, wrapper, outer, i, .site id⟩⟩
        (t :: c :: us) = closeChain R ⟨levels, nodes, .node⟩
          ⟨kind, wrapper, outer, i, .site id⟩ [.text value] >>= fun next => next.run R us := by
      obtain ⟨lexeme, p⟩ := t
      cases htext
      rw [run_label (List.cons_ne_nil _ _) (by simp [OpenTag.token]), run_cons (step_text _ _),
        String.ofList_toList, List.nil_append, run_closeChain hc']
    rw [run_cons (h o ho), run_cons (h i hi), hleft, hright, toOption_bind, toOption_bind]
    have hleaf : ∀ b, Leaf o (.site id) [] b ↔ Leaf i (.site id) [.text value] b := fun b =>
      (leaf_attr_iff ho' b).trans (leaf_text_iff hi' (by simp) ht b).symm
    rw [closeChain_congr hpos hleaf]

/-- Tokens that are read alike by every reading are so after some other tokens. -/
theorem run_append_congr {us vs : List Token}
    (h : ∀ r : Reading, (r.run R us).toOption = (r.run R vs).toOption) (ts : List Token)
    (r : Reading) : (r.run R (ts ++ us)).toOption = (r.run R (ts ++ vs)).toOption := by
  induction ts generalizing r with
  | nil => exact h r
  | cons t ts ih =>
    rw [List.cons_append, List.cons_append, run, run, toOption_bind, toOption_bind]
    congr 1
    funext next
    exact ih next

end Reading

/-! ## Sources -/

/-- Without an opening bracket there is no tag. -/
theorem Lexeme.scan_of_not_mem {value : String} (hb : '[' ∉ value.toList) (hne : value ≠ "") :
    scan value.toList = [.text value.toList] := by
  have hscan := scanFrom_text hb [] []
  rw [List.append_nil, List.append_nil, ← scan] at hscan
  rw [hscan, scanFrom, flush_reverse (by simpa using hne)]

theorem Lexeme.scan_of_unbracketed {value : String} (hv : Unbracketed value) (hne : value ≠ "") :
    scan value.toList = [.text value.toList] :=
  scan_of_not_mem (fun h => absurd (hv _ h) (by decide)) hne

namespace Document

variable {R : Registry} {name id value : String}

/-- **A name as the attribute of a tag without content makes the tree that it makes as the
    content of a tag without attribute**, or is refused as there, whatever stands around the
    tag. -/
theorem tree?_echo (hname : Tag.Written ⟨false, name.toList, none⟩)
    (hsite : R.bindingSite? (Text.lower name) = some (.site id))
    (hfree : Text.lower name ∉ reserved) (ht : Text.Trimmed value) (hv : Unbracketed value)
    (pre post : String) :
    tree? R (pre ++ "[" ++ name ++ "=" ++ value ++ "][/" ++ name ++ "]" ++ post) =
      tree? R (pre ++ "[" ++ name ++ "]" ++ value ++ "[/" ++ name ++ "]" ++ post) := by
  let o : Tag := ⟨false, name.toList, some value.toList⟩
  let i : Tag := ⟨false, name.toList, none⟩
  let c : Tag := ⟨true, name.toList, none⟩
  have ho : o.Written := ⟨hname.name_start, hname.name_ne_nil, hname.name, by rintro _ ⟨⟩; exact hv⟩
  have hc : c.Written := hname.closed rfl
  have hvalue : o.value? = some value := by
    have htrim : String.ofList (Chars.trim value.toList) = value := ht.2
    simp [o, Tag.value?, Tag.attr, htrim, ht.1]
  have hclose : Lexeme.scan (c.chars ++ post.toList) = .tag c :: Lexeme.scan post.toList :=
    Lexeme.scan_append_tag hc [] _
  have hleft : Lexeme.scan (pre ++ "[" ++ name ++ "=" ++ value ++ "][/" ++ name ++ "]" ++
      post).toList = Lexeme.scan pre.toList ++ ([.tag o, .tag c] ++ Lexeme.scan post.toList) := by
    have happend := Lexeme.scan_append_tag ho pre.toList (c.chars ++ post.toList)
    rw [hclose] at happend
    refine .trans (congrArg Lexeme.scan ?_) happend
    simp [o, c, Tag.chars]
  have hright : Lexeme.scan (pre ++ "[" ++ name ++ "]" ++ value ++ "[/" ++ name ++ "]" ++
      post).toList = Lexeme.scan pre.toList ++
        ([.tag i, .text value.toList, .tag c] ++ Lexeme.scan post.toList) := by
    have happend := Lexeme.scan_append_tag hname pre.toList
      (value.toList ++ (c.chars ++ post.toList))
    rw [Lexeme.scan_append_tag hc, Lexeme.scan_of_unbracketed hv ht.1] at happend
    refine .trans (congrArg Lexeme.scan ?_) happend
    simp [c, Tag.chars]
  have hcloses : Closes ⟨o, .nowhere⟩ (Lexeme.tag c).token := ⟨c, rfl, rfl, rfl, rfl⟩
  rw [tree?_eq, tree?_eq, hleft, hright]
  simp only [List.map_append]
  refine Reading.run_append_congr (fun r => ?_) _ _
  exact r.run_echo hfree hsite (o := ⟨o, .nowhere⟩) (i := ⟨i, .nowhere⟩) ⟨rfl, rfl⟩ ⟨rfl, rfl⟩ rfl
    hcloses hvalue rfl ht rfl _

theorem tree?_echo_innermost :
    let pre := "[url=[user][fa=x]"
    let post := "[/fa][/user]"
    tree? .builtin (pre ++ "[" ++ "SF" ++ "=" ++ "Some One" ++ "][/" ++ "SF" ++ "]" ++ post) =
        tree? .builtin (pre ++ "[" ++ "SF" ++ "]" ++ "Some One" ++ "[/" ++ "SF" ++ "]" ++ post) ∧
      (tree? .builtin "[url=[user][fa=x][SF]Some One[/SF][/fa][/user]").isSome = true := by
  intro pre post
  have hsite : Registry.bindingSite? .builtin (Text.lower "SF") = some (.site "sofurry") := by
    decide +kernel
  have hv : Unbracketed "Some One" := List.all_eq_true.1 (by decide +kernel)
  exact ⟨tree?_echo (by decide) hsite (by decide +kernel) ⟨by decide, by decide +kernel⟩ hv pre post,
    by decide +kernel⟩

end Document

end Crosspost
