/-
  Reading follows the grammar.

  * `Reading.run R r ts` is what comes of the tokens `ts` when they are read from
    `r` on;
  * `Reading.reads_of_derives`: tokens that spell a phrase are read as its tree, with
    any open lists around it and whatever follows;
  * `Reading.from_of_run`: where a reading succeeds, its tokens start with ones that
    spell the nodes of the innermost list, up to the tag that closes it;
  * `Document.parse_iff_derives`: **a source is read exactly if the grammar derives
    its tokens, and as the one tree that it derives**.
-/
import Crosspost.Proofs.Description.Steps

namespace Crosspost

open Grammar

namespace Reading

/-- The nodes that come of some tokens, read from `r` on. -/
def run (R : Registry) (r : Reading) : List Token → Except ParseError (List Node)
  | [] => r.finish
  | t :: ts => do (← step R r t).run R ts

theorem run_cons_eq_ok_iff {R : Registry} {r : Reading} {t : Token} {ts : List Token}
    {out : List Node} :
    r.run R (t :: ts) = .ok out ↔ ∃ next, step R r t = .ok next ∧ next.run R ts = .ok out :=
  bind_eq_ok

theorem run_cons {R : Registry} {r next : Reading} {t : Token} (h : step R r t = .ok next)
    (ts : List Token) : r.run R (t :: ts) = next.run R ts := by
  rw [run, h]
  rfl

theorem foldlM_step_eq_run (R : Registry) (r : Reading) (ts : List Token) :
    (do (← ts.foldlM (step R) r).finish) = r.run R ts := by
  induction ts generalizing r with
  | nil => rfl
  | cons t ts ih =>
    rw [List.foldlM_cons, run]
    cases h : step R r t with
    | error e => rfl
    | ok next => exact ih next

/-- What may stand in the innermost of some open lists. -/
def modeOf (levels : List (Frame × List Node)) : Mode :=
  if levels.any (·.1.isInline) then .inline else .block

theorem modeOf_eq_block_iff {levels : List (Frame × List Node)} :
    modeOf levels = .block ↔ levels.any (·.1.isInline) = false := by
  unfold modeOf
  cases levels.any (·.1.isInline) <;> simp

theorem modeOf_cons_of_inline {frame : Frame} (h : frame.isInline = true) (before : List Node)
    (levels : List (Frame × List Node)) : modeOf ((frame, before) :: levels) = .inline := by
  simp [modeOf, h]

theorem modeOf_cons_of_not_inline {frame : Frame} (h : frame.isInline = false)
    (before : List Node) (levels : List (Frame × List Node)) :
    modeOf ((frame, before) :: levels) = modeOf levels := by
  unfold modeOf
  rw [List.any_cons, h, Bool.false_or]

/-! ## Tokens by what they are taken for -/

section
variable {R : Registry} {levels : List (Frame × List Node)} {nodes : List Node}

theorem step_text (cs : List Char) (p : Position) :
    step R ⟨levels, nodes, .node⟩ ⟨.text cs, p⟩ =
      .ok ⟨levels, nodes ++ [.text (.ofList cs)], .node⟩ := rfl

theorem step_open {o : OpenTag} (ho : o.tag.closing = false) :
    step R ⟨levels, nodes, .node⟩ o.token = openNode R ⟨levels, nodes, .node⟩ o := by
  simp [step, node, OpenTag.token, ho]

/-- The closing tag of a list. -/
theorem step_close {frame : Frame} {ns : List Node} {c : Token} (hc : Closes frame.opener c) :
    step R ⟨(frame, nodes) :: levels, ns, .node⟩ c =
      leave R ⟨levels, nodes, .node⟩ frame ns := by
  obtain ⟨lexeme, p⟩ := c
  obtain ⟨tag, rfl, hclosing, hn, ha⟩ := hc
  simp [step, node, closeNode, hclosing, hn, ha]

theorem switchTag?_eq_some_iff {t : Token} {o : OpenTag} {site : BindingSite} :
    switchTag? R t = some (o, site) ↔ t = o.token ∧ OpensSwitch R o site := by
  obtain ⟨lexeme, p⟩ := t
  obtain ⟨tag, q⟩ := o
  cases lexeme with
  | text cs => simp [switchTag?, OpenTag.token]
  | tag tag' =>
    cases hc : tag'.closing with
    | true =>
      simp only [switchTag?, hc, if_true, reduceCtorEq, OpenTag.token, OpensSwitch, false_iff,
        Token.mk.injEq, Lexeme.tag.injEq]
      rintro ⟨⟨rfl, -⟩, h, -⟩
      rw [hc] at h
      cases h
    | false =>
      simp only [switchTag?, hc, Bool.false_eq_true, if_false, Option.map_eq_some_iff,
        Prod.mk.injEq, OpenTag.mk.injEq, OpenTag.token, OpensSwitch, Token.mk.injEq,
        Lexeme.tag.injEq]
      constructor
      · rintro ⟨_, hs, ⟨rfl, rfl⟩, rfl⟩
        exact ⟨⟨rfl, rfl⟩, hc, hs⟩
      · rintro ⟨⟨rfl, rfl⟩, -, hs⟩
        exact ⟨_, hs, ⟨rfl, rfl⟩, rfl⟩

theorem step_chain {w o : OpenTag} {kind : SwitchKind} {site : BindingSite}
    (ho : OpensSwitch R o site) :
    step R ⟨levels, nodes, .chain w kind⟩ o.token =
      .ok ⟨levels, nodes, .nested ⟨kind, some w, [], o, site⟩⟩ := by
  simp only [step, switchTag?_eq_some_iff.2 ⟨rfl, ho⟩, await]

theorem step_nested {chain : OpenChain} {o : OpenTag} {site : BindingSite}
    (ho : OpensSwitch R o site) :
    step R ⟨levels, nodes, .nested chain⟩ o.token =
      (do .ok ⟨levels, nodes, .nested (← nest R chain o site)⟩) := by
  simp only [step, switchTag?_eq_some_iff.2 ⟨rfl, ho⟩, await]

/-- What is no switch tag belongs to the text of the innermost one. -/
theorem step_label {chain : OpenChain} {t : Token}
    (ht : ∀ o site, t = OpenTag.token o → ¬ OpensSwitch R o site) :
    step R ⟨levels, nodes, .nested chain⟩ t =
      step R ⟨(.label chain, nodes) :: levels, [], .node⟩ t := by
  have : switchTag? R t = none := by
    rw [Option.eq_none_iff_forall_ne_some]
    rintro ⟨o, site⟩ h
    obtain ⟨h, ho⟩ := switchTag?_eq_some_iff.1 h
    exact ht o site h ho
  simp only [step, this, enter]

/-- What follows a switch tag, and is not one itself, is read as its text. -/
theorem run_label {chain : OpenChain} {ts : List Token} (hne : ts ≠ [])
    (h : ∀ i s, ts.head? = some (OpenTag.token i) → ¬ OpensSwitch R i s) :
    run R ⟨levels, nodes, .nested chain⟩ ts =
      run R ⟨(.label chain, nodes) :: levels, [], .node⟩ ts := by
  cases ts with
  | nil => exact absurd rfl hne
  | cons t ts => rw [run, run, step_label fun i s ht => h i s (ht ▸ rfl)]

theorem step_await {o : OpenTag} {problem : Problem} {more : List (OpenTag × Problem)}
    {done : Node} {c : Token} (hc : Closes o c) :
    step R ⟨levels, nodes, .close o problem more done⟩ c =
      .ok (awaitAll ⟨levels, nodes, .node⟩ more done) := by
  simp only [step]
  refine then_eq_ok.2 ⟨expectClose_eq_ok_iff.2 hc, ?_⟩
  cases more <;> rfl

theorem isElse_eq_true_iff {t : Token} :
    isElse t = true ↔ ∃ o, Opens o "else" ∧ t = OpenTag.token o := by
  obtain ⟨lexeme, p⟩ := t
  cases lexeme with
  | text cs => simp [isElse, OpenTag.token]
  | tag tag =>
    simp only [isElse, Bool.and_eq_true, Bool.not_eq_true', beq_iff_eq, Opens, OpenTag.token,
      Token.mk.injEq, Lexeme.tag.injEq]
    constructor
    · rintro ⟨hc, hn⟩
      exact ⟨⟨tag, p⟩, ⟨hc, hn⟩, rfl, rfl⟩
    · rintro ⟨_, h, rfl, -⟩
      exact h

theorem step_else {condition : Condition} {yes : List Node} {e : OpenTag} (he : Opens e "else") :
    step R ⟨levels, nodes, .otherwise condition yes⟩ e.token =
      (do refuseAttr e; .ok ⟨(.whenFalse e condition yes, nodes) :: levels, [], .node⟩) := by
  have hi : isElse ⟨.tag e.tag, e.position⟩ = true := isElse_eq_true_iff.2 ⟨e, he, rfl⟩
  simp only [step, OpenTag.token, hi, enter]

/-- A conditional that no `[else]` follows is complete. -/
theorem run_otherwise {condition : Condition} {yes : List Node} {ts : List Token}
    (h : ¬ StartsElse ts) :
    run R ⟨levels, nodes, .otherwise condition yes⟩ ts =
      run R ⟨levels, nodes ++ [.conditional condition yes none], .node⟩ ts := by
  cases ts with
  | nil => rfl
  | cons t ts =>
    have ht : isElse t = false := by
      rw [Bool.eq_false_iff]
      intro hi
      obtain ⟨o, ho, rfl⟩ := isElse_eq_true_iff.1 hi
      exact h ⟨o, ho, rfl⟩
    rw [run, run]
    simp only [step, ht, add]
    cases t.lexeme <;> rfl

theorem stops_cons {o : OpenTag} {c : Token} (h : Closes o c) (ts : List Token) :
    Stops (c :: ts) := by
  rintro _ ⟨⟩
  obtain ⟨tag, ht, hc, -⟩ := h
  exact ⟨tag, ht, hc⟩

theorem not_opensSwitch_of_closes {o i : OpenTag} {s : BindingSite} {c : Token} (h : Closes o c)
    (hi : c = i.token) : ¬ OpensSwitch R i s := by
  rintro ⟨ho, -⟩
  subst hi
  obtain ⟨tag, ht, hc, -⟩ := h
  cases ht
  rw [ho] at hc
  cases hc

/-! ## Phrases are read -/

variable (R) in
/-- The tokens `ts` are read as a phrase, whatever lists are open and whatever
    follows that is no stray `[else]`. A chain is read from its first tag on. -/
def Reads : Phrase → List Token → Prop
  | .node mode n, ts => ∀ levels nodes us, modeOf levels = mode → ¬ StartsElse us →
      run R ⟨levels, nodes, .node⟩ (ts ++ us) = run R ⟨levels, nodes ++ [n], .node⟩ us
  | .nodes mode ns, ts => ∀ levels nodes us, modeOf levels = mode → ¬ StartsElse us →
      run R ⟨levels, nodes, .node⟩ (ts ++ us) = run R ⟨levels, nodes ++ ns, .node⟩ us
  | .chain kind outer bs, ts => ∀ (chain : OpenChain) body levels nodes us,
      ts = chain.inner.token :: body → OpensSwitch R chain.inner chain.site →
      chain.kind = kind → chain.outer.map (·.2) = outer →
      run R ⟨levels, nodes, .nested chain⟩ (body ++ us) =
        run R (awaitAll ⟨levels, nodes, .node⟩ (closings chain)
          (.switch kind (outer ++ bs) (place chain))) us

/-- The content of a list and the tag that closes it. -/
theorem run_list (frame : Frame) {ns : List Node} {body : List Token} {c : Token}
    {next : Reading} {mode : Mode} (hb : Reads R (.nodes mode ns) body)
    (hm : modeOf ((frame, nodes) :: levels) = mode) (hc : Closes frame.opener c)
    (hl : leave R ⟨levels, nodes, .node⟩ frame ns = .ok next) (us : List Token) :
    run R ⟨(frame, nodes) :: levels, [], .node⟩ (body ++ c :: us) = run R next us := by
  rw [hb _ _ _ hm (stops_cons hc us).not_startsElse, List.nil_append,
    run_cons ((step_close hc).trans hl)]

theorem run_open {o : OpenTag} {next : Reading} (hc : o.tag.closing = false)
    (h : Opened R ⟨levels, nodes, .node⟩ o next) (ts : List Token) :
    run R ⟨levels, nodes, .node⟩ (o.token :: ts) = run R next ts :=
  run_cons ((step_open hc).trans (openNode_eq_ok_iff.2 h)) ts

/-- A list with the tags around it. -/
theorem run_enclosed {o : OpenTag} (frame : Frame) {ns : List Node} {body : List Token} {c : Token}
    {next : Reading} {mode : Mode} (ho : o.tag.closing = false)
    (h : Opened R ⟨levels, nodes, .node⟩ o ⟨(frame, nodes) :: levels, [], .node⟩)
    (hb : Reads R (.nodes mode ns) body) (hm : modeOf ((frame, nodes) :: levels) = mode)
    (hc : Closes frame.opener c) (hl : leave R ⟨levels, nodes, .node⟩ frame ns = .ok next)
    (us : List Token) :
    run R ⟨levels, nodes, .node⟩ (o.token :: (body ++ [c]) ++ us) = run R next us := by
  rw [List.cons_append, List.append_assoc, List.singleton_append, run_open ho h]
  exact run_list frame hb hm hc hl us

/-- A conditional with both its parts. -/
theorem reads_whenElse {o e : OpenTag} {expression : String} {condition : Condition}
    {yes no : List Node} {body other : List Token} {c d : Token} (ho : Opens o "if")
    (hv : o.tag.value? = some expression) (hp : Condition.parse R expression = .ok condition)
    (hyes : Reads R (.nodes .block yes) body) (hc : Closes o c) (he : Opens e "else")
    (ha : e.tag.attr = none) (hno : Reads R (.nodes .block no) other) (hd : Closes e d) :
    Reads R (.node .block (.conditional condition yes (some no)))
      (o.token :: (body ++ c :: e.token :: (other ++ [d]))) := by
  intro levels nodes us hm _
  have hk : Keyword.ofName? o.tag.name = some .condition := ho.2 ▸ by decide
  have hs : step R ⟨levels, nodes, .otherwise condition yes⟩ e.token =
      .ok ⟨(.whenFalse e condition yes, nodes) :: levels, [], .node⟩ :=
    (step_else he).trans (then_eq_ok.2 ⟨refuseAttr_eq_ok_iff.2 ha, rfl⟩)
  rw [List.cons_append, List.append_assoc, List.cons_append, List.cons_append,
    List.append_assoc, run_open ho.1 (.condition hk hv hp (modeOf_eq_block_iff.1 hm))]
  refine (run_list (.whenTrue o condition) hyes
    ((modeOf_cons_of_not_inline rfl _ _).trans hm) hc rfl _).trans ?_
  refine (run_cons hs _).trans ?_
  exact run_list (.whenFalse e condition yes) hno ((modeOf_cons_of_not_inline rfl _ _).trans hm)
    hd rfl us

/-- An innermost switch tag. -/
theorem reads_leaf {kind : SwitchKind} {outer : Chain String (List Node)} {o : OpenTag}
    {site : BindingSite} {ns : List Node} {body : List Token} {c : Token}
    {b : Binding String (List Node)} (ho : OpensSwitch R o site)
    (hh : ∀ i s, body.head? = some (OpenTag.token i) → ¬ OpensSwitch R i s)
    (hns : Reads R (.nodes .inline ns) body) (hc : Closes o c) (hl : Leaf o site ns b)
    (ha : Admits R kind outer site b.attr) :
    Reads R (.chain kind outer [b]) (o.token :: (body ++ [c])) := by
  rintro chain rest levels nodes us he ho' rfl rfl
  rw [List.cons.injEq, token_inj] at he
  obtain ⟨rfl, rfl⟩ := he
  obtain rfl : site = chain.site := Option.some.inj (ho.2.symm.trans ho'.2)
  -- the first token of the label, or the closing tag after an empty one, is no switch tag
  have hhead : ∀ i s, (body ++ c :: us).head? = some (OpenTag.token i) → ¬ OpensSwitch R i s := by
    intro i s hi
    cases body with
    | nil => exact not_opensSwitch_of_closes hc (Option.some.inj hi)
    | cons t body => exact hh i s hi
  rw [List.append_assoc, List.singleton_append, run_label (by simp) hhead]
  refine run_list (.label chain) hns (modeOf_cons_of_inline rfl _ _) hc ?_ us
  exact closeChain_eq_ok_iff.2 ⟨b, hl, ha, rfl⟩

/-- A switch tag around another one. -/
theorem reads_nested {kind : SwitchKind} {outer bs : Chain String (List Node)} {o : OpenTag}
    {site : BindingSite} {attr : String} {body : List Token} {c : Token}
    (ho : OpensSwitch R o site) (hv : o.tag.value? = some attr) (ha : Admits R kind outer site attr)
    (hd : Derives R (.chain kind (outer ++ [⟨site, attr, none⟩]) bs) body)
    (hb : Reads R (.chain kind (outer ++ [⟨site, attr, none⟩]) bs) body) (hc : Closes o c) :
    Reads R (.chain kind outer (⟨site, attr, none⟩ :: bs)) (o.token :: (body ++ [c])) := by
  rintro chain rest levels nodes us he ho' rfl rfl
  rw [List.cons.injEq, token_inj] at he
  obtain ⟨rfl, rfl⟩ := he
  obtain rfl : site = chain.site := Option.some.inj (ho.2.symm.trans ho'.2)
  obtain ⟨i, s, rest, rfl, hi⟩ := hd.chain_start
  have hstep : step R ⟨levels, nodes, .nested chain⟩ i.token =
      .ok ⟨levels, nodes, .nested (deepen chain attr i s)⟩ :=
    (step_nested hi).trans (bind_eq_ok.2 ⟨_, nest_eq_ok_iff.2 ⟨attr, hv, ha, rfl⟩, rfl⟩)
  rw [List.append_assoc, List.cons_append]
  refine (run_cons hstep _).trans ?_
  -- the tags inside are closed first, and then the one of this binding
  rw [hb (deepen chain attr i s) rest levels nodes _ rfl hi rfl (deepen_outer chain attr i s),
    closings_deepen, place_deepen, List.append_assoc, List.singleton_append]
  exact run_cons (step_await hc) us

theorem reads_of_derives {p : Phrase} {ts : List Token} (h : Derives R p ts) : Reads R p ts := by
  induction h with
  | text =>
    intro levels nodes us _ _
    exact run_cons (step_text _ _) us
  | @format mode kind o ns body c ho ha _ hc ih =>
    intro levels nodes us hm _
    have hk : Keyword.ofName? o.tag.name = some (.format kind) :=
      ho.2 ▸ Keyword.ofName?_tagName kind
    exact run_enclosed (.format o kind) ho.1 (.format hk ha) ih
      ((modeOf_cons_of_not_inline rfl _ _).trans hm) hc rfl us
  | @link o url ns body c ho hv _ hc ih =>
    intro levels nodes us hm _
    have hk : Keyword.ofName? o.tag.name = some .link := ho.2 ▸ by decide
    refine run_enclosed (.link o) ho.1 (.link hk (modeOf_eq_block_iff.1 hm)) ih
      (modeOf_cons_of_inline rfl _ _) hc ?_ us
    simp only [leave, hv, add]
  | @address o ns body c ho hv _ hc ht ih =>
    intro levels nodes us hm _
    have hk : Keyword.ofName? o.tag.name = some .link := ho.2 ▸ by decide
    refine run_enclosed (.link o) ho.1 (.link hk (modeOf_eq_block_iff.1 hm)) ih
      (modeOf_cons_of_inline rfl _ _) hc ?_ us
    simp only [leave, hv]
    exact if_neg ht
  | @self o c ho ha hc =>
    intro levels nodes us hm _
    have hk : Keyword.ofName? o.tag.name = some .self := ho.2 ▸ by decide
    rw [List.cons_append, run_open ho.1 (.self hk ha (modeOf_eq_block_iff.1 hm))]
    exact run_cons (step_await hc) us
  | @wrapper kind o bs body c ho ha hb hc ih =>
    intro levels nodes us hm _
    have hk : Keyword.ofName? o.tag.name = some (.wrapper kind) := ho.2 ▸ Keyword.ofName?_name kind
    obtain ⟨i, site, rest, rfl, hi⟩ := hb.chain_start
    rw [List.cons_append, List.append_assoc, List.cons_append,
      run_open ho.1 (.wrapper hk ha (modeOf_eq_block_iff.1 hm))]
    refine (run_cons (step_chain hi) _).trans ?_
    rw [ih ⟨kind, some o, [], i, site⟩ rest levels nodes _ rfl hi rfl rfl]
    exact run_cons (step_await hc) us
  | @switch o bs body hn hb ih =>
    intro levels nodes us hm _
    obtain ⟨i, site, rest, he, hi⟩ := hb.chain_start
    rw [List.cons.injEq, token_inj] at he
    obtain ⟨rfl, rfl⟩ := he
    rw [List.cons_append, run_open hi.1
      (.switch (Keyword.ofName?_eq_none_iff.2 hn) hi.2 (modeOf_eq_block_iff.1 hm))]
    exact ih ⟨.user, none, [], o, site⟩ body levels nodes us rfl hi rfl rfl
  | @whenOnly o expression condition yes body c ho hv hp _ hc ih =>
    intro levels nodes us hm hu
    have hk : Keyword.ofName? o.tag.name = some .condition := ho.2 ▸ by decide
    -- what follows is no second part, so the conditional is complete with the first one
    rw [← run_otherwise hu]
    exact run_enclosed (.whenTrue o condition) ho.1
      (.condition hk hv hp (modeOf_eq_block_iff.1 hm)) ih
      ((modeOf_cons_of_not_inline rfl _ _).trans hm) hc rfl us
  | whenElse ho hv hp _ hc he ha _ hd ih ih' => exact reads_whenElse ho hv hp ih hc he ha ih' hd
  | nil =>
    intro levels nodes us _ _
    rw [List.nil_append, List.append_nil]
  | @cons mode n ns ts us hn hns ih ih' =>
    intro levels nodes vs hm hv
    -- no second part follows the node in front, for no list starts with one
    rw [List.append_assoc, ih _ _ _ hm (hns.not_startsElse hv), ih' _ _ _ hm hv,
      List.append_assoc, List.singleton_append]
  | leaf ho hh _ hc hl ha ih => exact reads_leaf ho hh ih hc hl ha
  | nested ho hv ha hb hc ih => exact reads_nested ho hv ha hb ih hc

/-! ## Readings spell phrases -/

/-- A list whose content has ended is closed by its tag. -/
theorem closed_of_run {frame : Frame} {ns out : List Node} {us : List Token}
    (hs : Stops us) (h : run R ⟨(frame, nodes) :: levels, ns, .node⟩ us = .ok out) :
    ∃ c vs next, us = c :: vs ∧ Closes frame.opener c ∧
      leave R ⟨levels, nodes, .node⟩ frame ns = .ok next ∧ run R next vs = .ok out := by
  cases us with
  | nil => simp [run, finish, complete] at h
  | cons c vs =>
    obtain ⟨next, hstep, hrun⟩ := run_cons_eq_ok_iff.1 h
    obtain ⟨lexeme, p⟩ := c
    obtain ⟨tag, rfl, hclosing⟩ := hs _ rfl
    simp only [step, node, hclosing, if_true] at hstep
    obtain ⟨_, _, _, hlevels, hn, ha, hl⟩ := closeNode_eq_ok_iff.1 hstep
    cases hlevels
    exact ⟨_, vs, next, rfl, ⟨tag, rfl, hclosing, hn, ha⟩, hl, hrun⟩

theorem awaited_of_run {o : OpenTag} {problem : Problem} {more : List (OpenTag × Problem)}
    {done : Node} {out : List Node} {us : List Token}
    (h : run R ⟨levels, nodes, .close o problem more done⟩ us = .ok out) :
    ∃ c vs, us = c :: vs ∧ Closes o c ∧
      run R (awaitAll ⟨levels, nodes, .node⟩ more done) vs = .ok out := by
  cases us with
  | nil => simp [run, finish] at h
  | cons c vs =>
    obtain ⟨next, hstep, hrun⟩ := run_cons_eq_ok_iff.1 h
    have hc : Closes o c := by
      simp only [step] at hstep
      exact expectClose_eq_ok_iff.1 (then_eq_ok.1 hstep).1
    rw [step_await hc] at hstep
    cases hstep
    exact ⟨c, vs, rfl, hc, hrun⟩

theorem wrapped_of_run {w : OpenTag} {kind : SwitchKind} {out : List Node} {ts : List Token}
    (h : run R ⟨levels, nodes, .chain w kind⟩ ts = .ok out) :
    ∃ i site us, ts = OpenTag.token i :: us ∧ OpensSwitch R i site ∧
      run R ⟨levels, nodes, .nested ⟨kind, some w, [], i, site⟩⟩ us = .ok out := by
  cases ts with
  | nil => simp [run, finish] at h
  | cons t us =>
    obtain ⟨next, hstep, hrun⟩ := run_cons_eq_ok_iff.1 h
    cases hs : switchTag? R t with
    | none => simp [step, hs] at hstep
    | some p =>
      obtain ⟨rfl, hi⟩ := switchTag?_eq_some_iff.1 hs
      rw [step_chain hi] at hstep
      cases hstep
      exact ⟨p.1, p.2, us, rfl, hi, hrun⟩

variable (R) in
/-- A reading of at most `n` tokens in the place of nodes starts with tokens that
    spell the nodes of its innermost list, up to a closing tag or the end. -/
def NodesFrom (n : Nat) : Prop :=
  ∀ ts levels nodes out, ts.length ≤ n → run R ⟨levels, nodes, .node⟩ ts = .ok out →
    ∃ body us ns, ts = body ++ us ∧ Derives R (.nodes (modeOf levels) ns) body ∧ Stops us ∧
      run R ⟨levels, nodes ++ ns, .node⟩ us = .ok out

variable (R) in
/-- A reading of at most `n` tokens inside a switch tag starts with tokens that
    spell, with that tag, the rest of its chain. -/
def ChainFrom (n : Nat) : Prop :=
  ∀ (ts : List Token) (levels nodes) (chain : OpenChain) (out : List Node), ts.length ≤ n →
    OpensSwitch R chain.inner chain.site → run R ⟨levels, nodes, .nested chain⟩ ts = .ok out →
    ∃ body us bs, ts = body ++ us ∧
      Derives R (.chain chain.kind (chain.outer.map (·.2)) bs) (chain.inner.token :: body) ∧
      run R (awaitAll ⟨levels, nodes, .node⟩ (closings chain)
        (.switch chain.kind (chain.outer.map (·.2) ++ bs) (place chain))) us = .ok out

theorem list_of_run {n : Nat} (hn : NodesFrom R n) {frame : Frame} {ts : List Token}
    {out : List Node} (hl : ts.length ≤ n)
    (h : run R ⟨(frame, nodes) :: levels, [], .node⟩ ts = .ok out) :
    ∃ body c us ns next, ts = body ++ c :: us ∧
      Derives R (.nodes (modeOf ((frame, nodes) :: levels)) ns) body ∧ Closes frame.opener c ∧
      leave R ⟨levels, nodes, .node⟩ frame ns = .ok next ∧ run R next us = .ok out := by
  obtain ⟨body, us, ns, rfl, hd, hs, hrun⟩ := hn _ _ _ _ hl h
  obtain ⟨c, vs, next, rfl, hc, hleave, hrun⟩ := closed_of_run hs hrun
  exact ⟨body, c, vs, ns, next, rfl, hd, hc, hleave, hrun⟩

/-- After the first part of a conditional comes a second one, or there is none. -/
theorem otherwise_of_run {n : Nat} (hn : NodesFrom R n) (hm : modeOf levels = .block)
    {condition : Condition} {yes out : List Node} {us : List Token} (hl : us.length ≤ n)
    (h : run R ⟨levels, nodes, .otherwise condition yes⟩ us = .ok out) :
    run R ⟨levels, nodes ++ [.conditional condition yes none], .node⟩ us = .ok out ∨
      ∃ e other d vs no, us = OpenTag.token e :: (other ++ d :: vs) ∧ Opens e "else" ∧
        e.tag.attr = none ∧ Derives R (.nodes .block no) other ∧ Closes e d ∧
        run R ⟨levels, nodes ++ [.conditional condition yes (some no)], .node⟩ vs = .ok out := by
  by_cases hs : StartsElse us
  · obtain ⟨e, he, hh⟩ := hs
    obtain ⟨us, rfl⟩ := List.head?_eq_some_iff.1 hh
    obtain ⟨next, hstep, hrun⟩ := run_cons_eq_ok_iff.1 h
    obtain ⟨ha, hnext⟩ := then_eq_ok.1 ((step_else he).symm.trans hstep)
    cases hnext
    obtain ⟨other, d, vs, no, next, rfl, hd, hc, hleave, hrun⟩ :=
      list_of_run hn (Nat.le_of_succ_le hl) hrun
    cases hleave
    rw [modeOf_cons_of_not_inline rfl, hm] at hd
    exact .inr ⟨e, other, d, vs, no, rfl, he, refuseAttr_eq_ok_iff.1 ha, hd, hc, hrun⟩
  · exact .inl ((run_otherwise hs).symm.trans h)

/-- The node that an opening tag starts. -/
theorem node_of_run {n : Nat} (hn : NodesFrom R n) (hc : ChainFrom R n) {o : OpenTag}
    (ho : o.tag.closing = false) {ts : List Token} {out : List Node} (hl : ts.length ≤ n)
    (h : run R ⟨levels, nodes, .node⟩ (o.token :: ts) = .ok out) :
    ∃ body us x, ts = body ++ us ∧ Derives R (.node (modeOf levels) x) (o.token :: body) ∧
      run R ⟨levels, nodes ++ [x], .node⟩ us = .ok out := by
  obtain ⟨next, hstep, hrun⟩ := run_cons_eq_ok_iff.1 h
  rw [step_open ho] at hstep
  cases openNode_eq_ok_iff.1 hstep with
  | @format kind hk ha =>
    obtain ⟨body, c, us, ns, next, rfl, hd, hcl, hleave, hrun⟩ := list_of_run hn hl hrun
    cases hleave
    rw [modeOf_cons_of_not_inline rfl] at hd
    exact ⟨body ++ [c], us, _, by simp, .format ⟨ho, Keyword.ofName?_eq_some_iff.1 hk⟩ ha hd hcl,
      hrun⟩
  | link hk hr =>
    obtain ⟨body, c, us, ns, next, rfl, hd, hcl, hleave, hrun⟩ := list_of_run hn hl hrun
    have hname : Opens o "url" := ⟨ho, Keyword.ofName?_eq_some_iff.1 hk⟩
    rw [modeOf_cons_of_inline rfl] at hd
    rw [modeOf_eq_block_iff.2 hr]
    cases hv : o.tag.value? with
    | some url =>
      simp only [leave, hv, Except.ok.injEq] at hleave
      subst hleave
      exact ⟨body ++ [c], us, _, by simp, .link hname hv hd hcl, hrun⟩
    | none =>
      simp only [leave, hv] at hleave
      split_ifs at hleave with ht
      · simp at hleave
      · cases hleave
        exact ⟨body ++ [c], us, _, by simp, .address hname hv hd hcl ht, hrun⟩
  | self hk ha hr =>
    obtain ⟨c, us, rfl, hcl, hrun⟩ := awaited_of_run hrun
    rw [modeOf_eq_block_iff.2 hr]
    exact ⟨[c], us, _, rfl, .self ⟨ho, Keyword.ofName?_eq_some_iff.1 hk⟩ ha hcl, hrun⟩
  | @wrapper kind hk ha hr =>
    obtain ⟨i, site, rest, rfl, hi, hrun⟩ := wrapped_of_run hrun
    obtain ⟨body, us, bs, rfl, hd, hrun⟩ := hc _ _ _ _ _ (Nat.le_of_succ_le hl) hi hrun
    obtain ⟨c, us, rfl, hcl, hrun⟩ := awaited_of_run hrun
    rw [modeOf_eq_block_iff.2 hr]
    exact ⟨i.token :: (body ++ [c]), us, _, by simp,
      .wrapper ⟨ho, Keyword.ofName?_eq_some_iff.1 hk⟩ ha hd hcl, hrun⟩
  | @condition expression condition hk hv hp hr =>
    obtain ⟨body, c, us, ns, next, rfl, hd, hcl, hleave, hrun⟩ := list_of_run hn hl hrun
    cases hleave
    have hname : Opens o "if" := ⟨ho, Keyword.ofName?_eq_some_iff.1 hk⟩
    have hm : modeOf levels = .block := modeOf_eq_block_iff.2 hr
    rw [modeOf_cons_of_not_inline rfl] at hd
    rw [hm] at hd ⊢
    have hus : us.length ≤ n := by
      simp only [List.length_append, List.length_cons] at hl
      omega
    obtain hrun | ⟨e, other, d, us, no, rfl, he, hea, hd', hdl, hrun⟩ :=
      otherwise_of_run hn hm hus hrun
    · exact ⟨body ++ [c], us, _, by simp, .whenOnly hname hv hp hd hcl, hrun⟩
    · exact ⟨body ++ c :: e.token :: (other ++ [d]), us, _, by simp,
        .whenElse hname hv hp hd hcl he hea hd' hdl, hrun⟩
  | @switch site hk hs hr =>
    obtain ⟨body, us, bs, rfl, hd, hrun⟩ := hc _ _ _ _ _ hl ⟨ho, hs⟩ hrun
    rw [modeOf_eq_block_iff.2 hr]
    exact ⟨body, us, _, rfl, .switch (Keyword.ofName?_eq_none_iff.1 hk) hd, hrun⟩

theorem nodesFrom_of_lt {n : Nat} (ih : ∀ m < n, NodesFrom R m ∧ ChainFrom R m) :
    NodesFrom R n := by
  intro ts levels nodes out hl h
  -- the node in front, and then the nodes after it
  have hcons : ∀ {front rest x}, rest.length < n → Derives R (.node (modeOf levels) x) front →
      run R ⟨levels, nodes ++ [x], .node⟩ rest = .ok out →
      ∃ body us ns, front ++ rest = body ++ us ∧ Derives R (.nodes (modeOf levels) ns) body ∧
        Stops us ∧ run R ⟨levels, nodes ++ ns, .node⟩ us = .ok out := by
    intro front rest x hr hd hrun
    obtain ⟨body, us, ns, rfl, hds, hs, hrun⟩ := (ih _ hr).1 _ _ _ _ (Nat.le_refl _) hrun
    exact ⟨front ++ body, us, x :: ns, by simp, .cons hd hds, hs, by simpa using hrun⟩
  cases ts with
  | nil => exact ⟨[], [], [], rfl, .nil, by simp [Stops], by simpa using h⟩
  | cons t ts =>
    have hlt : ts.length < n := hl
    obtain ⟨lexeme, p⟩ := t
    cases lexeme with
    | text cs => exact hcons hlt .text ((run_cons (step_text cs p) ts).symm.trans h)
    | tag tag =>
      cases hclosing : tag.closing with
      | true => exact ⟨[], _, [], rfl, .nil, by simp [Stops, hclosing], by simpa using h⟩
      | false =>
        obtain ⟨hn, hc⟩ := ih _ hlt
        obtain ⟨body, us, x, rfl, hd, hrun⟩ :=
          node_of_run (o := ⟨tag, p⟩) hn hc hclosing (Nat.le_refl _) h
        have hu : us.length < n := by
          rw [List.length_append] at hlt
          omega
        exact hcons hu hd hrun

theorem chainFrom_of_lt {n : Nat} (hn : NodesFrom R n) (ih : ∀ m < n, ChainFrom R m) :
    ChainFrom R n := by
  intro ts levels nodes chain out hl ho h
  by_cases ht : ∃ i s, ts.head? = some (OpenTag.token i) ∧ OpensSwitch R i s
  · obtain ⟨i, s, hh, hi⟩ := ht
    obtain ⟨ts, rfl⟩ := List.head?_eq_some_iff.1 hh
    obtain ⟨next, hstep, hrun⟩ := run_cons_eq_ok_iff.1 h
    rw [step_nested hi] at hstep
    obtain ⟨deep, hnest, hnext⟩ := bind_eq_ok.1 hstep
    obtain ⟨attr, hv, ha, rfl⟩ := nest_eq_ok_iff.1 hnest
    cases hnext
    obtain ⟨body, us, bs, rfl, hd, hrun⟩ := ih _ hl _ _ _ _ _ (Nat.le_refl _) hi hrun
    rw [closings_deepen, place_deepen, deepen_outer, deepen_kind] at hrun
    rw [deepen_outer] at hd
    obtain ⟨c, us, rfl, hc, hrun⟩ := awaited_of_run hrun
    refine ⟨i.token :: (body ++ [c]), us, _, by simp, .nested ho hv ha hd hc, ?_⟩
    simpa using hrun
  · have hne : ts ≠ [] := by
      rintro rfl
      simp [run, finish] at h
    rw [run_label hne fun i s hh hi => ht ⟨i, s, hh, hi⟩] at h
    obtain ⟨body, c, us, ns, next, rfl, hd, hc, hleave, hrun⟩ := list_of_run hn hl h
    obtain ⟨b, hb, ha, rfl⟩ := closeChain_eq_ok_iff.1 hleave
    rw [modeOf_cons_of_inline rfl] at hd
    refine ⟨body ++ [c], us, [b], by simp, .leaf ho ?_ hd hc hb ha, hrun⟩
    intro i s hh hi
    refine ht ⟨i, s, ?_, hi⟩
    cases body with
    | nil => simp at hh
    | cons t body => simpa using hh

theorem from_of_run (n : Nat) : NodesFrom R n ∧ ChainFrom R n := by
  -- a switch tag is read as its text without a token taken, so chains need lists of their length
  induction n using Nat.strongRecOn with
  | ind n ih =>
    have hn := nodesFrom_of_lt ih
    exact ⟨hn, chainFrom_of_lt hn fun m hm => (ih m hm).2⟩

end

end Reading

namespace Document

open Reading

theorem ofTokens_eq_ok_iff {R : Registry} {ts : List Token} {ns : List Node} :
    ofTokens R ts = .ok ns ↔ Derives R (.nodes .block ns) ts := by
  rw [ofTokens, foldlM_step_eq_run]
  constructor
  · intro h
    obtain ⟨body, us, ms, rfl, hd, hs, hrun⟩ := (from_of_run ts.length).1 _ _ _ _ (Nat.le_refl _) h
    cases us with
    | nil =>
      cases hrun
      rwa [List.append_nil]
    | cons c us =>
      -- a closing tag with nothing open
      obtain ⟨next, hstep, -⟩ := run_cons_eq_ok_iff.1 hrun
      obtain ⟨lexeme, p⟩ := c
      obtain ⟨tag, rfl, hclosing⟩ := hs _ rfl
      simp [step, node, hclosing, closeNode] at hstep
  · intro h
    have := reads_of_derives h [] [] [] rfl not_startsElse_nil
    rw [List.append_nil] at this
    exact this

/-- **Reading is the grammar**: a source is read as a tree exactly if the grammar
    derives its tokens with that tree, and no tokens have two trees. -/
theorem parse_iff_derives (R : Registry) (source : String) :
    (∀ ns, parse R source = .ok ns ↔ Derives R (.nodes .block ns) (Token.ofSource source)) ∧
      ∀ ts ns ms, Derives R (.nodes .block ns) ts → Derives R (.nodes .block ms) ts → ns = ms := by
  refine ⟨fun ns => ofTokens_eq_ok_iff, fun ts ns ms hn hm => ?_⟩
  rw [← ofTokens_eq_ok_iff] at hn hm
  exact Except.ok.inj (hn.symm.trans hm)

end Document

end Crosspost
