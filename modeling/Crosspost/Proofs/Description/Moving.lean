/-
  Descriptions at other places.

  The position of a token goes into positions of nodes and errors and nowhere else, and the
  nodes before a token only into the list that they stand in.

  * `Node.move f n`: the node `n` with every position in it passed through `f`;
  * `Reading.carry f front r`: the reading `r` with its positions moved and the nodes
    `front` before its outermost list;
  * `Reading.run_carry`: **moved tokens that are read after some nodes make these nodes and
    the moved ones, or the moved error**;
  * `Document.exists_position_eq`: so an error is at the position of a token.
-/
import Crosspost.Proofs.Description.Parsing

namespace Crosspost

/-! ## Nodes -/

namespace Node

mutual
/-- A node with every position in it passed through a function. -/
def move (f : Position → Position) : Node → Node
  | text value => text value
  | format kind children => format kind (moveAll f children)
  | link url children => link url (moveAll f children)
  | self position => self (f position)
  | switch kind chain position => switch kind (moveChain f chain) (f position)
  | conditional condition whenTrue whenFalse =>
    conditional condition (moveAll f whenTrue) (moveOption f whenFalse)

/-- The nodes of a list, moved. -/
def moveAll (f : Position → Position) : List Node → List Node
  | [] => []
  | n :: ns => n.move f :: moveAll f ns

/-- A list of nodes that need not be there, moved. -/
def moveOption (f : Position → Position) : Option (List Node) → Option (List Node)
  | none => none
  | some ns => some (moveAll f ns)

/-- The bindings of a chain, moved. -/
def moveChain (f : Position → Position) :
    List (Binding String (List Node)) → List (Binding String (List Node))
  | [] => []
  | b :: bs => moveBinding f b :: moveChain f bs

/-- A binding with its text moved. -/
def moveBinding (f : Position → Position) :
    Binding String (List Node) → Binding String (List Node)
  | ⟨site, attr, display⟩ => ⟨site, attr, moveOption f display⟩
end

variable {f : Position → Position}

theorem moveAll_eq_map (ns : List Node) : moveAll f ns = ns.map (move f) := by
  induction ns with
  | nil => rfl
  | cons n ns ih => rw [moveAll, ih, List.map_cons]

theorem moveChain_eq_map (bs : List (Binding String (List Node))) :
    moveChain f bs = bs.map (moveBinding f) := by
  induction bs with
  | nil => rfl
  | cons b bs ih => rw [moveChain, ih, List.map_cons]

@[simp] theorem moveAll_append (ms ns : List Node) :
    moveAll f (ms ++ ns) = moveAll f ms ++ moveAll f ns := by
  simp [moveAll_eq_map]

@[simp] theorem moveBinding_site (b : Binding String (List Node)) :
    (moveBinding f b).site = b.site := by
  cases b
  rfl

@[simp] theorem moveBinding_attr (b : Binding String (List Node)) :
    (moveBinding f b).attr = b.attr := by
  cases b
  rfl

mutual
theorem plain_move (n : Node) : (n.move f).plain = n.plain := by
  cases n with
  | format kind ns => exact plainText_moveAll ns
  | link url ns => exact plainText_moveAll ns
  | _ => rfl

theorem plainText_moveAll (ns : List Node) : plainText (moveAll f ns) = plainText ns := by
  cases ns with
  | nil => rfl
  | cons n ns => rw [moveAll, plainText, plainText, plain_move n, plainText_moveAll ns]
end

theorem mapText_move (g : String → String) (n : Node) :
    (n.move f).mapText g = (n.mapText g).move f := by
  cases n <;> rfl

theorem modifyHead_mapText_moveAll (g : String → String) (ns : List Node) :
    (moveAll f ns).modifyHead (mapText g) = moveAll f (ns.modifyHead (mapText g)) := by
  cases ns with
  | nil => rfl
  | cons n ns => simp only [moveAll, List.modifyHead_cons, mapText_move]

theorem reverse_moveAll (ns : List Node) : (moveAll f ns).reverse = moveAll f ns.reverse := by
  simp [moveAll_eq_map]

theorem isEmptyText_move (n : Node) : (n.move f).isEmptyText = n.isEmptyText := by
  cases n <;> rfl

theorem trimEnds_moveAll (ns : List Node) : trimEnds (moveAll f ns) = moveAll f (trimEnds ns) := by
  unfold trimEnds
  simp only [modifyHead_mapText_moveAll, reverse_moveAll]
  simp [moveAll_eq_map, List.filter_map, Function.comp_def, isEmptyText_move]

end Node

/-! ## Readings -/

/-- A token at another position. -/
def Token.move (f : Position → Position) (t : Token) : Token := ⟨t.lexeme, f t.position⟩

/-- A tag at another position. -/
def OpenTag.move (f : Position → Position) (o : OpenTag) : OpenTag := ⟨o.tag, f o.position⟩

/-- A chain whose tags are at other positions. -/
def OpenChain.move (f : Position → Position) (c : OpenChain) : OpenChain :=
  { c with
    wrapper := c.wrapper.map (OpenTag.move f)
    outer := c.outer.map fun (o, b) => (o.move f, Node.moveBinding f b)
    inner := c.inner.move f }

/-- What a list becomes, at other positions. -/
def Frame.move (f : Position → Position) : Frame → Frame
  | format o kind => format (o.move f) kind
  | link o => link (o.move f)
  | label chain => label (chain.move f)
  | whenTrue o condition => whenTrue (o.move f) condition
  | whenFalse o condition yes => whenFalse (o.move f) condition (Node.moveAll f yes)

/-- What the next token is taken for, at other positions. -/
def Expectation.move (f : Position → Position) : Expectation → Expectation
  | node => node
  | chain wrapper kind => chain (wrapper.move f) kind
  | nested c => nested (c.move f)
  | close o problem more done =>
    close (o.move f) problem (more.map fun (o, problem) => (o.move f, problem)) (done.move f)
  | otherwise condition yes => otherwise condition (Node.moveAll f yes)

/-- An error at another position. -/
def ParseError.move (f : Position → Position) (e : ParseError) : ParseError :=
  ⟨e.problem, f e.position⟩

/-- A result that is changed by a function, or an error at another position. -/
def moved {α β : Type} (f : Position → Position) (g : α → β) :
    Except ParseError α → Except ParseError β
  | .ok a => .ok (g a)
  | .error e => .error (e.move f)

namespace Reading

variable {f : Position → Position} {front : List Node} {R : Registry}

/-- The list on top of some levels, moved; the outermost one comes after `front`. -/
def carryList (f : Position → Position) (front : List Node) (levels : List (Frame × List Node))
    (ns : List Node) : List Node :=
  (if levels.isEmpty then front else []) ++ Node.moveAll f ns

/-- The levels of a reading, moved, with `front` before the nodes of the outermost one. -/
def carryLevels (f : Position → Position) (front : List Node) :
    List (Frame × List Node) → List (Frame × List Node)
  | [] => []
  | (frame, before) :: levels =>
    (frame.move f, carryList f front levels before) :: carryLevels f front levels

/-- A reading at other positions, with `front` before its outermost list. -/
def carry (f : Position → Position) (front : List Node) (r : Reading) : Reading :=
  ⟨carryLevels f front r.levels, carryList f front r.levels r.nodes, r.expectation.move f⟩

/-! ### Results -/

theorem moved_bind {α β γ δ : Type} {g : α → β} {g' : γ → δ} {x : Except ParseError α}
    {k : α → Except ParseError γ} {k' : β → Except ParseError δ}
    (h : ∀ a, k' (g a) = moved f g' (k a)) : moved f g x >>= k' = moved f g' (x >>= k) := by
  cases x with
  | error e => rfl
  | ok a => exact h a

/-! ### Small steps -/

theorem add_carry (r : Reading) (n : Node) :
    (r.carry f front).add (n.move f) = (r.add n).carry f front := by
  simp [add, carry, carryList, Node.moveAll, Expectation.move]

theorem enter_carry (r : Reading) (frame : Frame) :
    (r.carry f front).enter (frame.move f) = (r.enter frame).carry f front := by
  simp [enter, carry, carryLevels, carryList, Node.moveAll, Expectation.move]

@[simp] theorem isInline_move (frame : Frame) : (frame.move f).isInline = frame.isInline := by
  cases frame <;> rfl

@[simp] theorem opener_move (frame : Frame) : (frame.move f).opener = frame.opener.move f := by
  cases frame <;> rfl

theorem isInline_carry (r : Reading) : (r.carry f front).isInline = r.isInline := by
  unfold isInline carry
  induction r.levels with
  | nil => rfl
  | cons level levels ih =>
    rw [carryLevels, List.any_cons, List.any_cons, ih, isInline_move]

/-! ### Chains -/

theorem map_outer_move (c : OpenChain) :
    (c.move f).outer.map (·.2) = (c.outer.map (·.2)).map (Node.moveBinding f) := by
  simp [OpenChain.move]

theorem problem?_move (chain : Chain String (List Node)) (site : BindingSite) :
    Chain.problem? (chain.map (Node.moveBinding f)) site = Chain.problem? chain site := by
  simp only [Chain.problem?, List.any_map, Function.comp_def, Node.moveBinding_site]

theorem checkBinding_move (c : OpenChain) (attr : String) :
    checkBinding R (c.move f) attr = moved f id (checkBinding R c attr) := by
  have hp : Chain.problem? ((c.move f).outer.map (·.2)) (c.move f).site =
      Chain.problem? (c.outer.map (·.2)) c.site := by
    rw [map_outer_move]
    exact problem?_move _ _
  unfold checkBinding
  rw [hp]
  obtain ⟨kind, wrapper, outer, inner, site⟩ := c
  cases Chain.problem? (outer.map (·.2)) site with
  | some problem => rfl
  | none =>
    cases kind with
    | siteurl => rfl
    | user =>
      cases site with
      | generic => rfl
      | site id =>
        simp only [OpenChain.move]
        cases (R.get? id).bind (·.checkUsername attr) <;> rfl

theorem nest_move (c : OpenChain) (inner : OpenTag) (site : BindingSite) :
    nest R (c.move f) (inner.move f) site = moved f (OpenChain.move f) (nest R c inner site) := by
  unfold nest
  cases hv : c.inner.tag.value? with
  | none => simp only [OpenChain.move, OpenTag.move, hv]; rfl
  | some attr =>
    have hv' : (c.move f).inner.tag.value? = some attr := hv
    simp only [hv', checkBinding_move]
    refine moved_bind fun _ => ?_
    simp [moved, OpenChain.move, Node.moveBinding, Node.moveOption]

theorem innermost_move (c : OpenChain) (ns : List Node) :
    innermost (c.move f) (Node.moveAll f ns) = moved f (Node.moveBinding f) (innermost c ns) := by
  unfold innermost
  rw [Node.plainText_moveAll, Node.trimEnds_moveAll]
  cases hv : c.inner.tag.value? with
  | some attr =>
    have hv' : (c.move f).inner.tag.value? = some attr := hv
    simp only [hv']
    split_ifs <;> rfl
  | none =>
    have hv' : (c.move f).inner.tag.value? = none := hv
    simp only [hv']
    split_ifs <;> first | rfl | simp_all [OpenChain.move]

theorem closings_move (c : OpenChain) :
    closings (c.move f) = (closings c).map fun (o, problem) => (o.move f, problem) := by
  obtain ⟨kind, wrapper, outer, inner, site⟩ := c
  cases wrapper with
  | none => simp [closings, OpenChain.move, OpenTag.move, Function.comp_def]
  | some o => simp [closings, OpenChain.move, OpenTag.move, Function.comp_def]

theorem place_move (c : OpenChain) : place (c.move f) = f (place c) := by
  obtain ⟨kind, wrapper, outer, inner, site⟩ := c
  cases wrapper with
  | some o => rfl
  | none => cases outer <;> rfl

theorem closeChain_carry (r : Reading) (c : OpenChain) (ns : List Node) :
    closeChain R (r.carry f front) (c.move f) (Node.moveAll f ns) =
      moved f (carry f front) (closeChain R r c ns) := by
  unfold closeChain
  rw [innermost_move]
  refine moved_bind fun b => ?_
  rw [Node.moveBinding_attr, checkBinding_move]
  refine moved_bind fun _ => ?_
  have hnode : Node.switch (c.move f).kind ((c.move f).outer.map (·.2) ++ [Node.moveBinding f b])
      (place (c.move f)) =
        (Node.switch c.kind (c.outer.map (·.2) ++ [b]) (place c)).move f := by
    rw [map_outer_move, place_move, Node.move, Node.moveChain_eq_map, List.map_append]
    rfl
  simp only [hnode, closings_move]
  cases closings c with
  | nil => simp only [List.map_nil, add_carry, moved]
  | cons c more => rfl

/-! ### Nodes -/

theorem leave_carry (r : Reading) (frame : Frame) (ns : List Node) :
    leave R (r.carry f front) (frame.move f) (Node.moveAll f ns) =
      moved f (carry f front) (leave R r frame ns) := by
  cases frame with
  | format o kind => exact congrArg Except.ok (add_carry r (.format kind ns))
  | label c => exact closeChain_carry r c ns
  | whenTrue o condition => rfl
  | whenFalse o condition yes =>
    exact congrArg Except.ok (add_carry r (.conditional condition yes (some ns)))
  | link o =>
    cases hv : o.tag.value? with
    | some url =>
      have hv' : (o.move f).tag.value? = some url := hv
      simp only [leave, Frame.move, hv, hv']
      exact congrArg Except.ok (add_carry r (.link url ns))
    | none =>
      have hv' : (o.move f).tag.value? = none := hv
      simp only [leave, Frame.move, hv, hv', Node.plainText_moveAll]
      split_ifs
      · rfl
      · exact congrArg Except.ok (add_carry r (.link _ []))

theorem refuseAttr_move (o : OpenTag) : refuseAttr (o.move f) = moved f id (refuseAttr o) := by
  unfold refuseAttr
  cases h : o.tag.attr <;> simp [OpenTag.move, h, moved, fault, ParseError.move]

theorem openNode_carry (r : Reading) (o : OpenTag) :
    openNode R (r.carry f front) (o.move f) = moved f (carry f front) (openNode R r o) := by
  have htag : (o.move f).tag = o.tag := rfl
  unfold openNode
  simp only [htag, isInline_carry]
  cases hk : Keyword.ofName? o.tag.name with
  | none =>
    cases hs : R.bindingSite? o.tag.name with
    | none => rfl
    | some site => cases r.isInline <;> rfl
  | some k =>
    cases k with
    | format kind =>
      simp only [refuseAttr_move]
      exact moved_bind fun _ => congrArg Except.ok (enter_carry r (.format o kind))
    | otherwise => rfl
    | link =>
      cases r.isInline
      · exact congrArg Except.ok (enter_carry r (.link o))
      · rfl
    | self =>
      cases r.isInline
      · simp only [refuseAttr_move]
        exact moved_bind fun _ => rfl
      · rfl
    | wrapper kind =>
      cases r.isInline
      · simp only [refuseAttr_move]
        exact moved_bind fun _ => rfl
      · rfl
    | condition =>
      cases r.isInline
      · cases o.tag.value? with
        | none => rfl
        | some expression =>
          cases hc : Condition.parse R expression with
          | error e => simp only [hc]; rfl
          | ok condition =>
            simp only [hc]
            exact congrArg Except.ok (enter_carry r (.whenTrue o condition))
      · rfl

theorem closeNode_carry (r : Reading) (tag : Tag) (p : Position) :
    closeNode R (r.carry f front) tag (f p) = moved f (carry f front) (closeNode R r tag p) := by
  obtain ⟨levels, nodes, expectation⟩ := r
  cases levels with
  | nil => rfl
  | cons level levels =>
    obtain ⟨frame, before⟩ := level
    have hopener : (frame.move f).opener.tag = frame.opener.tag := by
      rw [opener_move]
      rfl
    simp only [closeNode, carry, carryLevels, hopener]
    split_ifs
    · rfl
    · rfl
    · exact leave_carry ⟨levels, before, .node⟩ frame nodes

theorem node_carry (r : Reading) (t : Token) :
    node R (r.carry f front) (t.move f) = moved f (carry f front) (node R r t) := by
  obtain ⟨lexeme, p⟩ := t
  cases lexeme with
  | text cs => exact congrArg Except.ok (add_carry r (.text (.ofList cs)))
  | tag tag =>
    cases hc : tag.closing with
    | true =>
      simp only [node, Token.move, hc, if_true]
      exact closeNode_carry r tag p
    | false =>
      simp only [node, Token.move, hc, Bool.false_eq_true, if_false]
      exact openNode_carry r ⟨tag, p⟩

/-! ### Tokens -/

theorem switchTag?_move (t : Token) :
    switchTag? R (t.move f) = (switchTag? R t).map fun (o, site) => (o.move f, site) := by
  obtain ⟨lexeme, p⟩ := t
  cases lexeme with
  | text cs => rfl
  | tag tag =>
    cases hc : tag.closing with
    | true => simp [switchTag?, Token.move, hc]
    | false => simp [switchTag?, Token.move, hc, OpenTag.move, Function.comp_def]

theorem expectClose_move (o : OpenTag) (problem : Problem) (t : Token) :
    expectClose (o.move f) problem (t.move f) = moved f id (expectClose o problem t) := by
  obtain ⟨lexeme, p⟩ := t
  cases lexeme with
  | text cs => rfl
  | tag tag =>
    by_cases h : (tag.closing && tag.name == o.tag.name) = true
    · simp only [expectClose, Token.move, OpenTag.move, h, if_true]
      cases tag.attr <;> rfl
    · simp only [expectClose, Token.move, OpenTag.move, h, if_false, Bool.false_eq_true]
      rfl

/-- What is no `[else]` completes a conditional without a second part. -/
theorem step_otherwise {levels : List (Frame × List Node)} {nodes yes : List Node}
    {condition : Condition} {t : Token} (h : isElse t = false) :
    step R ⟨levels, nodes, .otherwise condition yes⟩ t =
      node R ⟨levels, nodes ++ [.conditional condition yes none], .node⟩ t := by
  simp only [step, h, add]
  cases t.lexeme <;> rfl

theorem step_carry (r : Reading) (t : Token) :
    step R (r.carry f front) (t.move f) = moved f (carry f front) (step R r t) := by
  obtain ⟨levels, nodes, expectation⟩ := r
  cases expectation with
  | node => exact node_carry ⟨levels, nodes, .node⟩ t
  | chain wrapper kind =>
    simp only [step, carry, Expectation.move, switchTag?_move]
    cases switchTag? R t <;> rfl
  | nested c =>
    simp only [step, carry, Expectation.move, switchTag?_move]
    cases switchTag? R t with
    | none =>
      refine .trans ?_ (node_carry (enter ⟨levels, nodes, .nested c⟩ (.label c)) t)
      exact congrArg (node R · (t.move f)) (enter_carry ⟨levels, nodes, .nested c⟩ (.label c))
    | some inner =>
      simp only [Option.map_some, nest_move]
      exact moved_bind fun _ => rfl
  | close o problem more done =>
    simp only [step, carry, Expectation.move, expectClose_move]
    refine moved_bind fun _ => ?_
    cases more with
    | nil => exact congrArg Except.ok (add_carry ⟨levels, nodes, .node⟩ done)
    | cons c more => rfl
  | otherwise condition yes =>
    by_cases he : isElse t = true
    · obtain ⟨e, ho, rfl⟩ := isElse_eq_true_iff.1 he
      have hmove : e.token.move f = (e.move f).token := rfl
      have hcarry : carry f front ⟨levels, nodes, .otherwise condition yes⟩ =
          ⟨carryLevels f front levels, carryList f front levels nodes,
            .otherwise condition (Node.moveAll f yes)⟩ := rfl
      rw [hmove, hcarry, step_else ho, step_else (e := e.move f) ho, refuseAttr_move]
      refine moved_bind fun _ => ?_
      exact congrArg Except.ok (enter_carry ⟨levels, nodes, .node⟩ (.whenFalse e condition yes))
    · rw [Bool.not_eq_true] at he
      rw [step_otherwise he]
      refine (step_otherwise (t := t.move f) he).trans ?_
      refine .trans ?_ (node_carry ⟨levels, nodes ++ [.conditional condition yes none], .node⟩ t)
      exact congrArg (node R · (t.move f))
        (add_carry ⟨levels, nodes, .node⟩ (.conditional condition yes none))

theorem complete_carry (r : Reading) :
    (r.carry f front).complete = moved f (fun ns => front ++ Node.moveAll f ns) r.complete := by
  obtain ⟨levels, nodes, expectation⟩ := r
  cases levels with
  | nil => rfl
  | cons level levels =>
    obtain ⟨frame, before⟩ := level
    simp only [complete, carry, carryLevels, opener_move]
    rfl

theorem finish_carry (r : Reading) :
    (r.carry f front).finish = moved f (fun ns => front ++ Node.moveAll f ns) r.finish := by
  obtain ⟨levels, nodes, expectation⟩ := r
  cases expectation with
  | node => exact complete_carry _
  | chain wrapper kind => rfl
  | nested c => rfl
  | close o problem more done => rfl
  | otherwise condition yes =>
    let whole : Node := .conditional condition yes none
    refine .trans ?_ (complete_carry (add ⟨levels, nodes, .node⟩ whole))
    exact congrArg complete (add_carry ⟨levels, nodes, .node⟩ whole)

/-- **Moved tokens that are read after some nodes make these nodes and the moved ones, or
    the moved error.** -/
theorem run_carry (r : Reading) (ts : List Token) :
    (r.carry f front).run R (ts.map (Token.move f)) =
      moved f (fun ns => front ++ Node.moveAll f ns) (r.run R ts) := by
  induction ts generalizing r with
  | nil => exact finish_carry r
  | cons t ts ih =>
    rw [List.map_cons, run, run, step_carry]
    exact moved_bind ih

end Reading

/-! ## Positions of errors -/

namespace Document

open Reading

theorem ofTokens_eq_run (R : Registry) (ts : List Token) : ofTokens R ts = start.run R ts :=
  foldlM_step_eq_run R start ts

theorem ofTokens_move (R : Registry) (f : Position → Position) (ts : List Token) :
    ofTokens R (ts.map (Token.move f)) = moved f (Node.moveAll f) (ofTokens R ts) := by
  rw [ofTokens_eq_run, ofTokens_eq_run]
  have hcarry : (start.carry f []).run R (ts.map (Token.move f)) = _ := run_carry start ts
  exact hcarry

/-- An error is at the position of a token. -/
theorem exists_position_eq {R : Registry} {ts : List Token} {e : ParseError}
    (h : ofTokens R ts = .error e) : ∃ t ∈ ts, t.position = e.position := by
  by_contra hne
  push Not at hne
  -- a function that moves no token, but would move the error
  let f : Position → Position := fun p =>
    if p = e.position then { p with offset := p.offset + 1 } else p
  have hts : ts.map (Token.move f) = ts := by
    refine (List.map_congr_left fun t ht => ?_).trans (List.map_id ts)
    simp [Token.move, f, hne t ht]
  have hmove := ofTokens_move R f ts
  rw [hts, h, moved, Except.error.injEq] at hmove
  have hoff : e.position.offset = e.position.offset + 1 := by
    simpa [ParseError.move, f] using congrArg (·.position.offset) hmove
  omega

end Document

end Crosspost
