/-
  Reading descriptions by descent.

  Here the tokens stand in a row with a cursor, and each phrase is read by a function that calls
  those of its parts. A descent looks sites and tokens up as it goes, so it could fail in more
  ways than a source may be faulty.

  * `Descent.Failure` lists these ways;
  * `Descent.nodes`, `Descent.node` and `Descent.chain` descend into lists, tags and chains;
  * `Descent.Agrees`: a descent into a phrase does to the cursor and the nodes what reading
    token by token does, and fails only where that does, with the same error;
  * `Descent.ofTokens_eq`: **a descent ends with the tree or the error of the reading**.
-/
import Crosspost.Proofs.Description.Moving
import Crosspost.Proofs.Description.Segmentation

namespace Crosspost.Descent

open Grammar

/-! ## Descents -/

/-- Why a descent ends without a tree. -/
inductive Failure where
  /-- The source is faulty. -/
  | fault (error : ParseError)
  /-- A tag is taken for a switch tag and names no site. -/
  | noSite (name : String)
  /-- A token is asked for where there is none. -/
  | noToken
  /-- A condition is faulty, and nothing says where it stands. -/
  | condition (error : ConditionError)
  /-- The descent goes deeper than it was meant to. -/
  | unending

/-- The failure of a descent at a fault of the source. -/
def lift {α : Type} (x : Except ParseError α) : Except Failure α := x.mapError .fault

/-- The descent fails because a tag is at fault. -/
def fault {α : Type} (problem : Problem) (p : Position) : Except Failure α :=
  lift (Reading.fault problem p)

section
variable (R : Registry) (ts : List Token)

/-- The site of a switch tag. -/
def site (name : String) : Except Failure BindingSite :=
  match R.bindingSite? name with
  | some site => .ok site
  | none => .error (.noSite name)

/-- The condition in an opening tag. -/
def condition (o : OpenTag) (expression : String) : Except Failure Condition :=
  tryCatch ((Condition.parse R expression).mapError .condition) fun
    | .condition error => fault (.condition error) o.position
    | failure => .error failure

/-- The opening tag that a token is, if it is a switch tag. -/
def switchTag? (t : Token) : Option OpenTag := (Reading.switchTag? R t).map (·.1)

/-- The token before the cursor. -/
def previous (cursor : Nat) : Except Failure Token :=
  match cursor with
  | 0 => .error .noToken
  | i + 1 =>
    match ts[i]? with
    | some t => .ok t
    | none => .error .noToken

/-- The cursor behind the closing tag of `o`. -/
def close (o : OpenTag) (problem : Problem) (cursor : Nat) : Except Failure (Unit × Nat) :=
  match ts[cursor]? with
  | none => fault (.unclosed o.tag.raw) o.position
  | some t => do
    lift (Reading.expectClose o problem t)
    .ok ((), cursor + 1)

/-- A chain as far as the checks of a binding look at it. -/
def around (kind : SwitchKind) (outer : Chain String (List Node)) (o : OpenTag)
    (site : BindingSite) : OpenChain :=
  ⟨kind, none, outer.map fun b => (o, b), o, site⟩

/-- The link of the tag `o` before the cursor, where `content` descends into a list. -/
def link (content : OpenTag → Nat → Except Failure (List Node × Nat)) (o : OpenTag)
    (cursor : Nat) : Except Failure (Node × Nat) := do
  let (ns, cursor) ← content o cursor
  match o.tag.value? with
  | some url => .ok (.link url ns, cursor)
  | none =>
    let url := Text.trim (Node.plainText ns)
    if url = "" then fault .linkWithoutUrl o.position else .ok (.link url [], cursor)

/-- The switch of the wrapper `o` before the cursor, where `chain` descends into a chain. -/
def wrapper (chain : OpenTag → Nat → Except Failure (Chain String (List Node) × Nat))
    (o : OpenTag) (kind : SwitchKind) (cursor : Nat) : Except Failure (Node × Nat) := do
  lift (Reading.refuseAttr o)
  match ts[cursor]? with
  | none => fault (.wrapperWithoutSwitch kind) o.position
  | some t =>
    match switchTag? R t with
    | none => fault (.wrapperWithoutSwitch kind) t.position
    | some i => do
      let (bs, cursor) ← chain i (cursor + 1)
      let (_, cursor) ← close ts o (.wrapperWithMore kind) cursor
      .ok (.switch kind bs o.position, cursor)

/-- The conditional whose first part is read, where `content` descends into a list. A second part
    must start where the token `last` stops, which closed the first one. -/
def otherwise (content : OpenTag → Nat → Except Failure (List Node × Nat)) (condition : Condition)
    (yes : List Node) (last : Token) (cursor : Nat) : Except Failure (Node × Nat) :=
  match ts[cursor]? with
  | some ⟨.tag tag, p⟩ =>
    if Reading.isElse ⟨.tag tag, p⟩ && p.offset == last.stop then do
      lift (Reading.refuseAttr ⟨tag, p⟩)
      let (no, cursor) ← content ⟨tag, p⟩ (cursor + 1)
      .ok (.conditional condition yes (some no), cursor)
    else .ok (.conditional condition yes none, cursor)
  | _ => .ok (.conditional condition yes none, cursor)

/-- The conditional of the tag `o` before the cursor, where `content` descends into a list. -/
def conditional (content : OpenTag → Nat → Except Failure (List Node × Nat)) (o : OpenTag)
    (cursor : Nat) : Except Failure (Node × Nat) :=
  match o.tag.value? with
  | none => fault .ifWithoutCondition o.position
  | some expression => do
    let condition ← condition R o expression
    let (yes, cursor) ← content o cursor
    let last ← previous ts cursor
    otherwise ts content condition yes last cursor

mutual
/-- The nodes from the cursor on, after the ones `before`, up to the closing tag of `closing` or
    to the end. -/
def nodes : Nat → Option OpenTag → Mode → List Node → Nat → Except Failure (List Node × Nat)
  | 0, _, _, _, _ => .error .unending
  | n + 1, closing, mode, before, cursor =>
    match ts[cursor]? with
    | none =>
      match closing with
      | none => .ok (before, cursor)
      | some o => fault (.unclosed o.tag.raw) o.position
    | some ⟨.text cs, _⟩ => nodes n closing mode (before ++ [.text (.ofList cs)]) (cursor + 1)
    | some ⟨.tag tag, p⟩ =>
      if tag.closing then
        match closing with
        | none => fault (.unexpectedClose tag.raw) p
        | some o =>
          if tag.name ≠ o.tag.name then fault (.mismatchedClose o.tag.name tag.raw) p
          else if tag.attr.isSome then fault (.attrOnClose tag.raw) p
          else .ok (before, cursor + 1)
      else do
        let (x, cursor) ← node n ⟨tag, p⟩ mode (cursor + 1)
        nodes n closing mode (before ++ [x]) cursor

/-- The node that an opening tag before the cursor starts. -/
def node : Nat → OpenTag → Mode → Nat → Except Failure (Node × Nat)
  | 0, _, _, _ => .error .unending
  | n + 1, o, mode, cursor =>
    match Keyword.ofName? o.tag.name with
    | some (.format kind) => do
      lift (Reading.refuseAttr o)
      let (ns, cursor) ← nodes n (some o) mode [] cursor
      .ok (.format kind ns, cursor)
    | some .otherwise => fault .strayElse o.position
    | keyword =>
      if keyword.isNone && (R.bindingSite? o.tag.name).isNone then
        fault (.unknownTag o.tag.raw) o.position
      else if mode = .inline then fault (.notInline o.tag.raw) o.position
      else match keyword with
        | some .link => link (fun o => nodes n (some o) .inline []) o cursor
        | some .self => do
          lift (Reading.refuseAttr o)
          let (_, cursor) ← close ts o .selfNotEmpty cursor
          .ok (.self o.position, cursor)
        | some (.wrapper kind) => wrapper R ts (fun i => chain n i kind []) o kind cursor
        | some .condition => conditional R ts (fun o => nodes n (some o) .block []) o cursor
        | _ => do
          let (bs, cursor) ← chain n o .user [] cursor
          .ok (.switch .user bs o.position, cursor)

/-- The bindings from the switch tag `o` before the cursor on, inside those of `outer`. -/
def chain : Nat → OpenTag → SwitchKind → Chain String (List Node) → Nat →
    Except Failure (Chain String (List Node) × Nat)
  | 0, _, _, _, _ => .error .unending
  | n + 1, o, kind, outer, cursor => do
    let site ← site R o.tag.name
    match ts[cursor]?.bind (switchTag? R) with
    | some i =>
      match o.tag.value? with
      | none => fault (.nestedWithoutAttr o.tag.raw o.tag.name) o.position
      | some attr => do
        lift (Reading.checkBinding R (around kind outer o site) attr)
        let (bs, cursor) ← chain n i kind (outer ++ [⟨site, attr, none⟩]) (cursor + 1)
        let (_, cursor) ← close ts o (.switchWithMore o.tag.raw) cursor
        .ok (⟨site, attr, none⟩ :: bs, cursor)
    | none => do
      let (ns, cursor) ← nodes n (some o) .inline [] cursor
      let binding ← lift (Reading.innermost (around kind outer o site) ns)
      lift (Reading.checkBinding R (around kind outer o site) binding.attr)
      .ok ([binding], cursor)
end

/-- The tree of some tokens. -/
def ofTokens : Except Failure (List Node) := do
  let (ns, _) ← nodes R ts (3 * ts.length + 1) none .block [] 0
  .ok ns

end

/-! ## Agreement -/

open Reading

/-- A descent ends in `x` as the reading `y` goes: behind `bound`, with something from which
    `y` goes on as `k` says, or with the error of `y`. -/
inductive Agrees {α : Type} (ts : List Token) (bound : Nat)
    (k : α → List Token → Except ParseError (List Node)) (y : Except ParseError (List Node)) :
    Except Failure (α × Nat) → Prop
  | ok {a : α} {cursor : Nat} : bound ≤ cursor → cursor ≤ ts.length → y = k a (ts.drop cursor) →
      Agrees ts bound k y (.ok (a, cursor))
  | fault {e : ParseError} : y = .error e → Agrees ts bound k y (.error (.fault e))

section
variable {α β : Type} {R : Registry} {ts : List Token} {bound bound' cursor : Nat}
  {k : α → List Token → Except ParseError (List Node)}
  {k' : β → List Token → Except ParseError (List Node)} {y : Except ParseError (List Node)}
  {levels : List (Frame × List Node)} {before : List Node} {o : OpenTag}

theorem Agrees.bind {x : Except Failure (α × Nat)} {f : α × Nat → Except Failure (β × Nat)}
    (h : Agrees ts bound k y x)
    (hf : ∀ a cursor, bound ≤ cursor → cursor ≤ ts.length →
      Agrees ts bound' k' (k a (ts.drop cursor)) (f (a, cursor))) :
    Agrees ts bound' k' y (x >>= f) := by
  cases h with
  | ok hb hl hy => exact hy ▸ hf _ _ hb hl
  | fault hy => exact .fault hy

theorem Agrees.mono {x : Except Failure (α × Nat)} (h : Agrees ts bound k y x)
    (hb : bound' ≤ bound) : Agrees ts bound' k y x := by
  cases h with
  | ok hb' hl hy => exact .ok (Nat.le_trans hb hb') hl hy
  | fault hy => exact .fault hy

theorem agrees_fault (problem : Problem) (p : Position) :
    Agrees ts bound k (Reading.fault problem p) (fault problem p) := .fault rfl

theorem agrees_lift {γ : Type} {x : Except ParseError γ} {f : γ → Except Failure (α × Nat)}
    {g : γ → Except ParseError (List Node)} (h : ∀ c, x = .ok c → Agrees ts bound k (g c) (f c)) :
    Agrees ts bound k (x >>= g) (lift x >>= f) := by
  cases x with
  | error e => exact .fault rfl
  | ok c => exact h c rfl

/-- The cursor is at the end, or at a token. -/
theorem row_cases (ts : List Token) (cursor : Nat) :
    (ts[cursor]? = none ∧ ts.drop cursor = []) ∨
      ∃ t, ts[cursor]? = some t ∧ ts.drop cursor = t :: ts.drop (cursor + 1) ∧
        cursor + 1 ≤ ts.length := by
  rcases Nat.lt_or_ge cursor ts.length with h | h
  · exact .inr ⟨ts[cursor], List.getElem?_eq_getElem h, List.drop_eq_getElem_cons h, h⟩
  · exact .inl ⟨List.getElem?_eq_none h, List.drop_eq_nil_of_le h⟩

theorem step_awaiting {problem : Problem} {more : List (OpenTag × Problem)} {done : Node}
    {t : Token} :
    step R ⟨levels, before, .close o problem more done⟩ t = (do
      expectClose o problem t
      .ok (awaitAll ⟨levels, before, .node⟩ more done)) := by
  cases more <;> rfl

theorem run_cons_eq_bind {r : Reading} {t : Token} {us : List Token} :
    r.run R (t :: us) = step R r t >>= (·.run R us) := rfl

theorem agrees_close {problem : Problem} {more : List (OpenTag × Problem)} {done : Node} :
    Agrees ts (cursor + 1) (fun _ us => (awaitAll ⟨levels, before, .node⟩ more done).run R us)
      (run R ⟨levels, before, .close o problem more done⟩ (ts.drop cursor))
      (close ts o problem cursor) := by
  unfold close
  rcases row_cases ts cursor with ⟨hnone, hdrop⟩ | ⟨t, hsome, hdrop, hl⟩
  · rw [hnone, hdrop]
    exact agrees_fault _ _
  · rw [hsome, hdrop, run_cons_eq_bind, step_awaiting, bind_assoc]
    exact agrees_lift fun _ _ => .ok (Nat.le_refl _) hl rfl

/-! ### Single tags -/

theorem agrees_link (content : OpenTag → Nat → Except Failure (List Node × Nat))
    (h : Agrees ts (cursor + 1)
      (fun ns us => leave R ⟨levels, before, .node⟩ (.link o) ns >>= (·.run R us))
      y (content o cursor)) :
    Agrees ts (cursor + 1) (fun x us => run R ⟨levels, before ++ [x], .node⟩ us) y
      (link content o cursor) := by
  refine h.bind fun ns cursor' hb hl => ?_
  cases hv : o.tag.value? with
  | some url =>
    simp only [leave, hv]
    exact .ok hb hl rfl
  | none =>
    simp only [leave, hv]
    split_ifs
    · exact agrees_fault _ _
    · exact .ok hb hl rfl

theorem switchTag?_eq_some {t : Token} {i : OpenTag} (h : switchTag? R t = some i) :
    t = i.token ∧ ∃ s, OpensSwitch R i s := by
  obtain ⟨⟨j, s⟩, hs, rfl⟩ := Option.map_eq_some_iff.1 h
  obtain ⟨rfl, hj⟩ := switchTag?_eq_some_iff.1 hs
  exact ⟨rfl, s, hj⟩

theorem not_opensSwitch_of_switchTag? {t : Token} (h : switchTag? R t = none) :
    ∀ i s, t = OpenTag.token i → ¬ OpensSwitch R i s := by
  intro i s ht hi
  have hs := switchTag?_eq_some_iff.2 ⟨ht, hi⟩
  rw [switchTag?, hs] at h
  cases h

theorem agrees_wrapper {kind : SwitchKind}
    {chain : OpenTag → Nat → Except Failure (Chain String (List Node) × Nat)}
    (h : ∀ i s, cursor + 1 ≤ ts.length → OpensSwitch R i s → Agrees ts (cursor + 2)
      (fun bs us => (awaitAll ⟨levels, before, .node⟩ [(o, .wrapperWithMore kind)]
        (.switch kind bs o.position)).run R us)
      (run R ⟨levels, before, .nested ⟨kind, some o, [], i, s⟩⟩ (ts.drop (cursor + 1)))
      (chain i (cursor + 1))) :
    Agrees ts (cursor + 1) (fun x us => run R ⟨levels, before ++ [x], .node⟩ us)
      (refuseAttr o >>= fun _ => run R ⟨levels, before, .chain o kind⟩ (ts.drop cursor))
      (wrapper R ts chain o kind cursor) := by
  refine agrees_lift fun _ _ => ?_
  rcases row_cases ts cursor with ⟨hnone, hdrop⟩ | ⟨t, hsome, hdrop, hl⟩
  · rw [hnone, hdrop]
    exact agrees_fault _ _
  · rw [hsome, hdrop]
    cases ht : switchTag? R t with
    | none =>
      have hstep : step R ⟨levels, before, .chain o kind⟩ t =
          Reading.fault (.wrapperWithoutSwitch kind) t.position := by
        have : Reading.switchTag? R t = none := by simpa [switchTag?] using ht
        simp only [step, this]
      simp only [run_cons_eq_bind, hstep, ht]
      exact agrees_fault _ _
    | some i =>
      obtain ⟨rfl, s, hi⟩ := switchTag?_eq_some ht
      rw [run_cons (step_chain hi)]
      simp only [ht]
      refine (h i s hl hi).bind fun bs cursor' hb _ => ?_
      refine agrees_close.bind fun _ cursor'' hb' hl' => ?_
      exact .ok (by omega) hl' rfl

theorem previous_eq_ok (hb : 0 < cursor) (hl : cursor ≤ ts.length) :
    ∃ t, previous ts cursor = .ok t ∧ ts[cursor - 1]? = some t := by
  obtain ⟨i, rfl⟩ := Nat.exists_eq_add_of_lt hb
  rw [Nat.zero_add] at hl ⊢
  have hi : ts[i]? = some ts[i] := List.getElem?_eq_getElem hl
  exact ⟨ts[i], by simp [previous, hi], hi⟩

/-- Side by side, a token starts where the one before it stops. -/
theorem start_eq_stop (hts : ts.IsChain fun a b => b.start = a.stop) {last t : Token}
    (hb : 0 < cursor) (hlast : ts[cursor - 1]? = some last) (ht : ts[cursor]? = some t) :
    t.start = last.stop := by
  obtain ⟨i, rfl⟩ := Nat.exists_eq_add_of_lt hb
  rw [Nat.zero_add] at hlast ht
  obtain ⟨hi, rfl⟩ := List.getElem?_eq_some_iff.1 ht
  obtain ⟨_, rfl⟩ := List.getElem?_eq_some_iff.1 hlast
  exact List.isChain_iff_getElem.1 hts i hi

theorem condition_eq (o : OpenTag) (expression : String) :
    condition R o expression =
      lift ((Condition.parse R expression).mapError fun e => ⟨.condition e, o.position⟩) := by
  unfold condition
  cases Condition.parse R expression <;> rfl

theorem agrees_otherwise (hts : ts.IsChain fun a b => b.start = a.stop)
    {content : OpenTag → Nat → Except Failure (List Node × Nat)} {condition : Condition}
    {yes : List Node} {last : Token} (hb : 0 < cursor) (hl : cursor ≤ ts.length)
    (hlast : ts[cursor - 1]? = some last)
    (h : ∀ e, cursor + 1 ≤ ts.length → Agrees ts (cursor + 2)
      (fun no us => run R ⟨levels, before ++ [.conditional condition yes (some no)], .node⟩ us)
      (run R ⟨(.whenFalse e condition yes, before) :: levels, [], .node⟩ (ts.drop (cursor + 1)))
      (content e (cursor + 1))) :
    Agrees ts cursor (fun x us => run R ⟨levels, before ++ [x], .node⟩ us)
      (run R ⟨levels, before, .otherwise condition yes⟩ (ts.drop cursor))
      (otherwise ts content condition yes last cursor) := by
  -- without a second part the conditional is complete at the cursor
  have hwhole : ¬ StartsElse (ts.drop cursor) →
      Agrees ts cursor (fun x us => run R ⟨levels, before ++ [x], .node⟩ us)
        (run R ⟨levels, before, .otherwise condition yes⟩ (ts.drop cursor))
        (.ok (.conditional condition yes none, cursor)) :=
    fun he => .ok (Nat.le_refl _) hl (run_otherwise he)
  unfold otherwise
  rcases row_cases ts cursor with ⟨hnone, hdrop⟩ | ⟨t, hsome, hdrop, hl'⟩
  · rw [hnone]
    exact hwhole (hdrop ▸ not_startsElse_nil)
  · by_cases he : isElse t = true
    · obtain ⟨e, ho, rfl⟩ := isElse_eq_true_iff.1 he
      have hstart : e.position.offset = last.stop := start_eq_stop hts hb hlast hsome
      have helse : isElse ⟨.tag e.tag, e.position⟩ = true := he
      rw [hsome, hdrop, run_cons_eq_bind, step_else ho, bind_assoc]
      simp only [OpenTag.token, helse, hstart, beq_self_eq_true, Bool.and_self, if_true]
      refine agrees_lift fun _ _ => ?_
      refine (h e hl').bind fun no cursor' hb' hl'' => ?_
      exact .ok (by omega) hl'' rfl
    · have hne : ¬ StartsElse (ts.drop cursor) := by
        rintro ⟨e, ho, hh⟩
        rw [hdrop, List.head?_cons, Option.some.injEq] at hh
        exact he (isElse_eq_true_iff.2 ⟨e, ho, hh⟩)
      rw [hsome]
      obtain ⟨lexeme, p⟩ := t
      cases lexeme with
      | text cs => exact hwhole hne
      | tag tag =>
        rw [Bool.not_eq_true] at he
        simp only [he, Bool.false_and, Bool.false_eq_true, if_false]
        exact hwhole hne

theorem agrees_conditional (hts : ts.IsChain fun a b => b.start = a.stop)
    (content : OpenTag → Nat → Except Failure (List Node × Nat)) (hc : cursor ≤ ts.length)
    (hm : modeOf levels = .block) (hk : Keyword.ofName? o.tag.name = some .condition)
    (h : ∀ frame cursor', cursor ≤ cursor' → cursor' ≤ ts.length → frame.isInline = false →
      Agrees ts (cursor' + 1)
        (fun ns us => leave R ⟨levels, before, .node⟩ frame ns >>= (·.run R us))
        (run R ⟨(frame, before) :: levels, [], .node⟩ (ts.drop cursor'))
        (content frame.opener cursor')) :
    Agrees ts (cursor + 1) (fun x us => run R ⟨levels, before ++ [x], .node⟩ us)
      (openNode R ⟨levels, before, .node⟩ o >>= (·.run R (ts.drop cursor)))
      (conditional R ts content o cursor) := by
  have hinline : isInline ⟨levels, before, .node⟩ = false := modeOf_eq_block_iff.1 hm
  unfold conditional
  cases hv : o.tag.value? with
  | none =>
    simp only [openNode, hk, hv, hinline]
    exact agrees_fault _ _
  | some expression =>
    have hopen : openNode R ⟨levels, before, .node⟩ o =
        ((Condition.parse R expression).mapError fun e => ⟨.condition e, o.position⟩) >>=
          fun condition => .ok ⟨(.whenTrue o condition, before) :: levels, [], .node⟩ := by
      simp only [openNode, hk, hv, hinline]
      cases Condition.parse R expression <;> rfl
    rw [hopen, bind_assoc]
    simp only [condition_eq]
    refine agrees_lift fun condition _ => ?_
    refine (h (.whenTrue o condition) cursor (Nat.le_refl _) hc rfl).bind
      fun yes cursor' hb hl => ?_
    obtain ⟨last, hprev, hlast⟩ := previous_eq_ok (by omega) hl
    simp only [hprev]
    refine .mono (agrees_otherwise hts (by omega) hl hlast fun e hl' => ?_) hb
    exact h (.whenFalse e condition yes) (cursor' + 1) (by omega) hl' rfl

/-! ### Lists, tags and chains -/

/-- The tag that closes the innermost list. -/
def closing (levels : List (Frame × List Node)) : Option OpenTag :=
  levels.head?.map (·.1.opener)

/-- What a reading does with the nodes of the innermost list when it is closed. -/
def closed (R : Registry) :
    List (Frame × List Node) → List Node → List Token → Except ParseError (List Node)
  | [], ns, _ => .ok ns
  | (frame, before) :: levels, ns, us => do (← leave R ⟨levels, before, .node⟩ frame ns).run R us

variable (R ts) in
/-- A descent into lists that may go `n` deep agrees with the reading. -/
def NodesAgree (n : Nat) : Prop :=
  ∀ levels before cursor, 3 * (ts.length - cursor) + 1 ≤ n → cursor ≤ ts.length →
    Agrees ts (cursor + min 1 levels.length) (closed R levels)
      (run R ⟨levels, before, .node⟩ (ts.drop cursor))
      (nodes R ts n (closing levels) (modeOf levels) before cursor)

variable (R ts) in
/-- A descent into an opening tag that may go `n` deep agrees with the reading. -/
def NodeAgrees (n : Nat) : Prop :=
  ∀ (o : OpenTag) levels before cursor, 3 * (ts.length - cursor) + 3 ≤ n → cursor ≤ ts.length →
    o.tag.closing = false →
    Agrees ts (cursor + 1) (fun x us => run R ⟨levels, before ++ [x], .node⟩ us)
      (openNode R ⟨levels, before, .node⟩ o >>= (·.run R (ts.drop cursor)))
      (node R ts n o (modeOf levels) cursor)

variable (R ts) in
/-- A descent into a chain that may go `n` deep agrees with the reading. -/
def ChainAgrees (n : Nat) : Prop :=
  ∀ (c : OpenChain) levels before cursor, 3 * (ts.length - cursor) + 2 ≤ n →
    cursor ≤ ts.length → OpensSwitch R c.inner c.site →
    Agrees ts (cursor + 1)
      (fun bs us => (awaitAll ⟨levels, before, .node⟩ (closings c)
        (.switch c.kind (c.outer.map (·.2) ++ bs) (place c))).run R us)
      (run R ⟨levels, before, .nested c⟩ (ts.drop cursor))
      (chain R ts n c.inner c.kind (c.outer.map (·.2)) cursor)

theorem nodesAgree_succ {n : Nat} (hnodes : NodesAgree R ts n) (hnode : NodeAgrees R ts n) :
    NodesAgree R ts (n + 1) := by
  intro levels before cursor hn hc
  unfold nodes
  rcases row_cases ts cursor with ⟨hnone, hdrop⟩ | ⟨t, hsome, hdrop, hl⟩
  · rw [hnone, hdrop]
    cases levels with
    | nil => exact .ok (Nat.le_refl _) hc rfl
    | cons level levels => exact agrees_fault _ _
  · obtain ⟨lexeme, p⟩ := t
    rw [hsome, hdrop]
    cases lexeme with
    | text cs =>
      rw [run_cons (step_text cs p)]
      exact (hnodes levels _ (cursor + 1) (by omega) hl).mono (by omega)
    | tag tag =>
      cases hcl : tag.closing with
      | true =>
        have hstep : step R ⟨levels, before, .node⟩ ⟨.tag tag, p⟩ =
            closeNode R ⟨levels, before, .node⟩ tag p := by simp [step, Reading.node, hcl]
        rw [run_cons_eq_bind, hstep]
        simp only [hcl, if_true]
        cases levels with
        | nil => exact agrees_fault _ _
        | cons level levels =>
          obtain ⟨frame, outer⟩ := level
          simp only [closing, List.head?_cons, Option.map_some, closeNode]
          split_ifs
          · exact agrees_fault _ _
          · exact agrees_fault _ _
          · exact .ok (by simp) hl rfl
      | false =>
        have hstep : step R ⟨levels, before, .node⟩ (OpenTag.token ⟨tag, p⟩) =
            openNode R ⟨levels, before, .node⟩ ⟨tag, p⟩ := step_open hcl
        rw [run_cons_eq_bind]
        simp only [hcl, Bool.false_eq_true, if_false]
        refine .bind (hstep ▸ hnode ⟨tag, p⟩ levels before (cursor + 1) (by omega) hl hcl)
          fun x cursor' hb hl' => ?_
        exact (hnodes levels _ cursor' (by omega) hl').mono (by omega)

/-- Inside a link or a switch tag, an opening tag is at fault if it does not format. -/
theorem agrees_inline {n : Nat} {us : List Token}
    {k : Node → List Token → Except ParseError (List Node)} (hm : modeOf levels = .inline)
    (hf : ∀ kind, Keyword.ofName? o.tag.name ≠ some (.format kind)) :
    Agrees ts bound k (openNode R ⟨levels, before, .node⟩ o >>= (·.run R us))
      (node R ts (n + 1) o .inline cursor) := by
  have hr : isInline ⟨levels, before, .node⟩ = true := by
    by_contra h
    rw [modeOf_eq_block_iff.2 (Bool.not_eq_true _ ▸ h)] at hm
    cases hm
  unfold node
  cases hk : Keyword.ofName? o.tag.name with
  | none =>
    cases hs : R.bindingSite? o.tag.name with
    | none | some s =>
      simp only [openNode, hk, hs, hr]
      exact agrees_fault _ _
  | some keyword =>
    cases keyword with
    | format kind => exact absurd hk (hf kind)
    | otherwise | link | self | wrapper | condition =>
      simp only [openNode, hk, hr]
      exact agrees_fault _ _

/-- What an opening tag with a meaning of its own starts elsewhere. -/
theorem agrees_block (hts : ts.IsChain fun a b => b.start = a.stop) {n : Nat} {keyword : Keyword}
    (hchain : ChainAgrees R ts n) (hn : 3 * (ts.length - cursor) + 2 ≤ n) (hc : cursor ≤ ts.length)
    (hk : Keyword.ofName? o.tag.name = some keyword) (hf : ∀ kind, keyword ≠ .format kind)
    (hm : modeOf levels = .block)
    (hlist : ∀ frame cursor', cursor ≤ cursor' → cursor' ≤ ts.length →
      Agrees ts (cursor' + 1)
        (fun ns us => leave R ⟨levels, before, .node⟩ frame ns >>= (·.run R us))
        (run R ⟨(frame, before) :: levels, [], .node⟩ (ts.drop cursor'))
        (nodes R ts n (some frame.opener) (modeOf ((frame, before) :: levels)) [] cursor')) :
    Agrees ts (cursor + 1) (fun x us => run R ⟨levels, before ++ [x], .node⟩ us)
      (openNode R ⟨levels, before, .node⟩ o >>= (·.run R (ts.drop cursor)))
      (node R ts (n + 1) o .block cursor) := by
  have hr : isInline ⟨levels, before, .node⟩ = false := modeOf_eq_block_iff.1 hm
  unfold node
  simp only [hk]
  cases keyword with
  | format kind => exact absurd rfl (hf kind)
  | otherwise =>
    simp only [openNode, hk]
    exact agrees_fault _ _
  | link =>
    have hlink := hlist (.link o) cursor (Nat.le_refl _) hc
    rw [modeOf_cons_of_inline rfl] at hlink
    simp only [openNode, hk, hr]
    exact agrees_link (fun o => nodes R ts n (some o) .inline []) hlink
  | self =>
    simp only [openNode, hk, hr, Option.isNone_some, Bool.false_and, Bool.false_eq_true, if_false,
      bind_assoc]
    refine agrees_lift fun _ _ => ?_
    exact agrees_close.bind fun _ cursor' hb hl => .ok hb hl rfl
  | wrapper kind =>
    simp only [openNode, hk, hr, Option.isNone_some, Bool.false_and, Bool.false_eq_true, if_false,
      bind_assoc]
    refine agrees_wrapper fun i s hl hi => ?_
    exact hchain ⟨kind, some o, [], i, s⟩ levels before (cursor + 1) (by omega) hl hi
  | condition =>
    refine agrees_conditional hts (fun o => nodes R ts n (some o) .block []) hc hm hk
      fun frame cursor' hb hl hf => ?_
    have hpart := hlist frame cursor' hb hl
    rw [modeOf_cons_of_not_inline hf, hm] at hpart
    exact hpart

theorem nodeAgrees_succ (hts : ts.IsChain fun a b => b.start = a.stop) {n : Nat}
    (hnodes : NodesAgree R ts n) (hchain : ChainAgrees R ts n) : NodeAgrees R ts (n + 1) := by
  intro o levels before cursor hn hc ho
  have hlist : ∀ frame cursor', cursor ≤ cursor' → cursor' ≤ ts.length →
      Agrees ts (cursor' + 1)
        (fun ns us => leave R ⟨levels, before, .node⟩ frame ns >>= (·.run R us))
        (run R ⟨(frame, before) :: levels, [], .node⟩ (ts.drop cursor'))
        (nodes R ts n (some frame.opener) (modeOf ((frame, before) :: levels)) [] cursor') := by
    intro frame cursor' hb hl
    exact (hnodes ((frame, before) :: levels) [] cursor' (by omega) hl).mono (by simp)
  by_cases hf : ∃ kind, Keyword.ofName? o.tag.name = some (.format kind)
  · obtain ⟨kind, hk⟩ := hf
    have hformat := hlist (.format o kind) cursor (Nat.le_refl _) hc
    rw [modeOf_cons_of_not_inline rfl] at hformat
    unfold node
    simp only [openNode, hk, bind_assoc]
    refine agrees_lift fun _ _ => ?_
    exact hformat.bind fun ns cursor' hb hl => .ok hb hl rfl
  · rw [not_exists] at hf
    cases hm : modeOf levels with
    | inline => exact agrees_inline hm hf
    | block =>
      cases hk : Keyword.ofName? o.tag.name with
      | some keyword =>
        exact agrees_block hts hchain (by omega) hc hk (fun kind h => hf kind (h ▸ hk)) hm hlist
      | none =>
        have hr : isInline ⟨levels, before, .node⟩ = false := modeOf_eq_block_iff.1 hm
        unfold node
        cases hs : R.bindingSite? o.tag.name with
        | none =>
          simp only [openNode, hk, hs]
          exact agrees_fault _ _
        | some s =>
          simp only [openNode, hk, hs, hr]
          exact (hchain ⟨.user, none, [], o, s⟩ levels before cursor (by omega) hc ⟨ho, hs⟩).bind
            fun bs cursor' hb hl => .ok hb hl rfl

theorem checkBinding_around {c : OpenChain} {attr : String} :
    Reading.checkBinding R (around c.kind (c.outer.map (·.2)) c.inner c.site) attr =
      Reading.checkBinding R c attr := by
  have houter : (around c.kind (c.outer.map (·.2)) c.inner c.site).outer.map (·.2) =
      c.outer.map (·.2) := by simp [around]
  unfold Reading.checkBinding
  rw [houter]
  rfl

theorem nest_eq {c : OpenChain} {i : OpenTag} {s : BindingSite} {attr : String}
    (hv : c.inner.tag.value? = some attr) :
    nest R c i s = Reading.checkBinding R c attr >>= fun _ => .ok (deepen c attr i s) := by
  simp only [nest, hv, deepen]

theorem closeChain_eq {r : Reading} {c : OpenChain} {ns : List Node} :
    closeChain R r c ns = (do
      let binding ← Reading.innermost c ns
      Reading.checkBinding R c binding.attr
      .ok (r.awaitAll (closings c)
        (.switch c.kind (c.outer.map (·.2) ++ [binding]) (place c)))) := by
  unfold closeChain awaitAll
  cases closings c <;> rfl

/-- Where no switch tag comes, the text of a chain does, or the end within it. -/
theorem run_text {c : OpenChain} {us : List Token}
    (h : ∀ i s, us.head? = some (OpenTag.token i) → ¬ OpensSwitch R i s) :
    run R ⟨levels, before, .nested c⟩ us = run R ⟨(.label c, before) :: levels, [], .node⟩ us := by
  cases us with
  | nil => rfl
  | cons u us => exact run_label (by simp) h

theorem agrees_leaf {n : Nat} {c : OpenChain} (hnodes : NodesAgree R ts n)
    (hn : 3 * (ts.length - cursor) + 1 ≤ n) (hc : cursor ≤ ts.length)
    (h : ∀ i s, (ts.drop cursor).head? = some (OpenTag.token i) → ¬ OpensSwitch R i s) :
    Agrees ts (cursor + 1)
      (fun bs us => (awaitAll ⟨levels, before, .node⟩ (closings c)
        (.switch c.kind (c.outer.map (·.2) ++ bs) (place c))).run R us)
      (run R ⟨levels, before, .nested c⟩ (ts.drop cursor)) (do
        let (ns, cursor) ← nodes R ts n (some c.inner) .inline [] cursor
        let chain := around c.kind (c.outer.map (·.2)) c.inner c.site
        let binding ← lift (Reading.innermost chain ns)
        lift (Reading.checkBinding R chain binding.attr)
        .ok ([binding], cursor)) := by
  have htext : Agrees ts (cursor + 1) _ _ _ :=
    (hnodes ((.label c, before) :: levels) [] cursor hn hc).mono (by simp)
  rw [modeOf_cons_of_inline rfl] at htext
  rw [run_text h]
  refine htext.bind fun ns cursor' hb hl => ?_
  simp only [closed, leave, closeChain_eq, bind_assoc]
  refine agrees_lift fun binding _ => ?_
  rw [checkBinding_around]
  refine agrees_lift fun _ _ => ?_
  exact .ok hb hl rfl

theorem chainAgrees_succ {n : Nat} (hnodes : NodesAgree R ts n) (hchain : ChainAgrees R ts n) :
    ChainAgrees R ts (n + 1) := by
  intro c levels before cursor hn hc hi
  have hsite : site R c.inner.tag.name = .ok c.site := by simp [site, hi.2]
  unfold chain
  simp only [hsite]
  rcases row_cases ts cursor with ⟨hnone, hdrop⟩ | ⟨t, hsome, hdrop, hl⟩
  · rw [hnone]
    exact agrees_leaf hnodes (by omega) hc (by simp [hdrop])
  · rw [hsome]
    cases ht : switchTag? R t with
    | none =>
      simp only [Option.bind_some, ht]
      refine agrees_leaf hnodes (by omega) hc fun i s hh => ?_
      rw [hdrop, List.head?_cons, Option.some.injEq] at hh
      exact not_opensSwitch_of_switchTag? ht i s hh
    | some i =>
      obtain ⟨rfl, s, hi'⟩ := switchTag?_eq_some ht
      simp only [Option.bind_some, ht]
      rw [hdrop, run_cons_eq_bind, step_nested hi', bind_assoc]
      cases hv : c.inner.tag.value? with
      | none =>
        simp only [nest, hv]
        exact agrees_fault _ _
      | some attr =>
        rw [nest_eq hv, bind_assoc]
        change Agrees ts _ _ _ (lift (Reading.checkBinding R _ attr) >>= fun _ => _)
        rw [checkBinding_around]
        refine agrees_lift fun _ _ => ?_
        have hdeep := hchain (deepen c attr i s) levels before (cursor + 1) (by omega) hl hi'
        rw [closings_deepen, place_deepen, deepen_outer, deepen_kind] at hdeep
        refine hdeep.bind fun bs cursor' hb hl' => ?_
        refine agrees_close.bind fun _ cursor'' hb' hl'' => ?_
        exact .ok (by omega) hl'' (by simp)

/-! ### Whole descents -/

/-- Every phrase is read one level deeper than those around it, and each token adds at most
    three levels. -/
theorem agree (hts : ts.IsChain fun a b => b.start = a.stop) (n : Nat) :
    NodesAgree R ts n ∧ NodeAgrees R ts n ∧ ChainAgrees R ts n := by
  induction n with
  | zero =>
    refine ⟨fun _ _ _ hn => ?_, fun _ _ _ _ hn => ?_, fun _ _ _ _ hn => ?_⟩ <;> omega
  | succ n ih =>
    obtain ⟨hnodes, hnode, hchain⟩ := ih
    exact ⟨nodesAgree_succ hnodes hnode, nodeAgrees_succ hts hnodes hchain,
      chainAgrees_succ hnodes hchain⟩

/-- A descent through tokens side by side fails in no way of its own. -/
theorem ofTokens_eq (hts : ts.IsChain fun a b => b.start = a.stop) :
    ofTokens R ts = lift (Document.ofTokens R ts) := by
  have h := (agree (R := R) hts (3 * ts.length + 1)).1 [] [] 0 (by simp) (Nat.zero_le _)
  simp only [List.drop_zero] at h
  rw [Document.ofTokens_eq_run]
  change Agrees ts 0 _ (run R start ts) (nodes R ts _ none .block [] 0) at h
  unfold ofTokens
  generalize nodes R ts (3 * ts.length + 1) none .block [] 0 = x at h
  cases h with
  | ok _ _ hy => rw [hy]; rfl
  | fault hy => rw [hy]; rfl

end

end Crosspost.Descent
