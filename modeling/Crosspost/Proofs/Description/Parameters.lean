/-
  Which words a condition may ask about.

  * `Subject.word`: the word of a subject, and `Condition.parameter`: the letters that an
    expression starts with;
  * `Condition.refused_of_parameter`: an expression whose parameter is no such word is refused;
  * `Node.Asks R ts n`: a conditional asks what the attribute of an `[if]` among the tokens
    `ts` spells;
  * `Document.asks_of_parse`: **every condition in the tree of a source is read from an `[if]`
    of the source, and asks about the word that is written there**.

  Beside `site` and `define` there is the word `constructor`, which asks about flags
  (`Document.not_only_site_and_define`).
-/
import Crosspost.Proofs.Description.Depth

namespace Crosspost

open Grammar

/-! ## Words -/

/-- The word of a subject. -/
def Subject.word : Subject → String
  | site => "site"
  | define => "define"
  | constructor => "constructor"

namespace Condition

/-- The letters that an expression starts with. -/
def parameter (expression : String) : List Char :=
  (Chars.trimStart expression.toList).takeWhile Char.isAlpha

/-- The parameter of an expression in lower case. -/
def loweredParameter (expression : String) : String := .ofList (Chars.lower (parameter expression))

theorem subject?_eq_some_iff {name : List Char} {s : Subject} :
    subject? name = some s ↔ String.ofList (Chars.lower name) = s.word := by
  unfold subject?
  cases s <;> simp only [Subject.word] <;> split_ifs <;> simp_all

theorem name_of_split? {expression : String} {parts : Parts}
    (h : split? expression.toList = some parts) : parts.name = parameter expression := by
  unfold split? at h
  dsimp only at h
  split_ifs at h
  split at h
  · cases h
  · split_ifs at h
    cases h
    rfl

theorem subject_of_ofParts {R : Registry} {parts : Parts} {c : Condition}
    (h : ofParts R parts = .ok c) : subject? parts.name = some c.subject := by
  unfold ofParts at h
  split at h
  · cases h
  · next hs =>
    split at h
    · cases h
    · cases h
    · obtain ⟨operands, -, hc⟩ := bind_eq_ok.1 h
      cases hc
      exact hs

/-- What is read as a condition asks about the word that it starts with. -/
theorem word_of_parse {R : Registry} {expression : String} {c : Condition}
    (h : parse R expression = .ok c) : c.subject.word = loweredParameter expression := by
  unfold parse at h
  split at h
  · cases h
  · next parts hs =>
    cases hp : ofParts R parts with
    | error e => simp [hp, Except.mapError] at h
    | ok c' =>
      rw [hp] at h
      cases h
      rw [loweredParameter, ← name_of_split? hs]
      exact (subject?_eq_some_iff.1 (subject_of_ofParts hp)).symm

/-- What asks about no word is refused, and the refusal says so unless it has not even the
    form of a condition. -/
theorem refused_of_parameter (R : Registry) {expression : String}
    (h : ∀ s : Subject, s.word ≠ loweredParameter expression) :
    parse R expression = .error ⟨expression, .malformed⟩ ∨ parse R expression =
      .error ⟨expression, .unknownParameter (.ofList (parameter expression))⟩ := by
  unfold parse
  cases hs : split? expression.toList with
  | none => exact .inl rfl
  | some parts =>
    have hname : parts.name = parameter expression := name_of_split? hs
    have hsubject : subject? parts.name = none := by
      rw [hname, Option.eq_none_iff_forall_ne_some]
      exact fun s hs => h s (subject?_eq_some_iff.1 hs).symm
    refine .inr ?_
    rw [← hname]
    simp [ofParts, hsubject, Except.mapError]

end Condition

/-! ## Conditions of a tree -/

namespace Node

/-- Whatever a node asks is read from an opening `[if]` among some tokens. -/
def Asks (R : Registry) (ts : List Token) (n : Node) : Prop :=
  ∀ condition yes no, n = conditional condition yes no → ∃ o expression, OpenTag.token o ∈ ts ∧
    Opens o "if" ∧ o.tag.value? = some expression ∧ Condition.parse R expression = .ok condition

theorem Asks.mono {R : Registry} {ts us : List Token} {n : Node} (h : n.Asks R ts)
    (hsub : ts ⊆ us) : n.Asks R us := by
  intro condition yes no hn
  obtain ⟨o, expression, ho, hrest⟩ := h condition yes no hn
  exact ⟨o, expression, hsub ho, hrest⟩

theorem every_iff {P : Node → Prop} {ns : List Node} :
    Every P ns ↔ ∀ n ∈ ns, P n ∧ ∀ part ∈ n.parts, Every P part := by
  induction ns with
  | nil => simp
  | cons n ns ih => rw [every_cons, ih, List.forall_mem_cons, and_assoc]

/-- Trimming a list leaves parts of its texts. -/
theorem every_trimEnds {P : Node → Prop}
    (htext : ∀ s t : String, t.toList ⊆ s.toList → P (text s) → P (text t)) {ns : List Node}
    (h : Every P ns) : Every P (trimEnds ns) := by
  have hmap {f : String → String} (hf : ∀ s, (f s).toList ⊆ s.toList) {l : List Node}
      (hl : ∀ n ∈ l, P n ∧ ∀ part ∈ n.parts, Every P part) :
      ∀ n ∈ l.modifyHead (mapText f), P n ∧ ∀ part ∈ n.parts, Every P part := by
    cases l with
    | nil => exact hl
    | cons m l =>
      obtain ⟨hm, hl⟩ := List.forall_mem_cons.1 hl
      refine List.forall_mem_cons.2 ⟨?_, hl⟩
      cases m with
      | text s => exact ⟨htext s (f s) (hf s) hm.1, nofun⟩
      | _ => exact hm
  have hstart : ∀ s, (Text.trimStart s).toList ⊆ s.toList := fun s => by
    simpa using Chars.trimStart_subset s.toList
  have hend : ∀ s, (Text.trimEnd s).toList ⊆ s.toList := fun s => by
    simpa using Chars.trimEnd_subset s.toList
  refine every_iff.2 fun n hn => ?_
  have hstarted := hmap hstart (every_iff.1 h)
  refine hmap hend (fun m hm => hstarted m (List.mem_reverse.1 hm)) n ?_
  exact List.mem_reverse.1 (List.mem_of_mem_filter hn)

/-- The nodes of a phrase, at whatever depth, satisfy `P`. -/
def EveryOf (P : Node → Prop) : Phrase → Prop
  | .node _ n => P n ∧ ∀ part ∈ n.parts, Every P part
  | .nodes _ ns => Every P ns
  | .chain _ _ bs => ∀ b ∈ bs, ∀ ns ∈ b.display, Every P ns

theorem EveryOf.mono {P Q : Node → Prop} {p : Phrase} (h : EveryOf P p) (hPQ : ∀ n, P n → Q n) :
    EveryOf Q p := by
  cases p with
  | node mode n => exact ⟨hPQ n h.1, fun part hp => (h.2 part hp).mono hPQ⟩
  | nodes mode ns => exact Every.mono h hPQ
  | chain kind outer bs => exact fun b hb ns hns => (h b hb ns hns).mono hPQ

theorem EveryOf.display_of_leaf {P : Node → Prop}
    (htext : ∀ s t : String, t.toList ⊆ s.toList → P (text s) → P (text t)) {o : OpenTag}
    {site : BindingSite} {ns : List Node} {b : Binding String (List Node)} (hb : Leaf o site ns b)
    (h : Every P ns) : ∀ ms ∈ b.display, Every P ms := by
  cases hb with
  | shown _ _ =>
    rintro _ ⟨⟩
    exact every_trimEnds htext h
  | _ => rintro _ ⟨⟩

/-- **What holds of every node, of the tokens that spell it and of more, holds within every
    phrase of its tokens.** -/
theorem everyOf_of_derives {R : Registry} {P : List Token → Node → Prop}
    (hmono : ∀ {ts us : List Token} {n : Node}, ts ⊆ us → P ts n → P us n)
    (htext : ∀ (ts : List Token) (s : String), P ts (text s))
    (hroot : ∀ {mode : Mode} {n : Node} {ts : List Token}, Derives R (.node mode n) ts → P ts n)
    {p : Phrase} {ts : List Token} (h : Derives R p ts) : EveryOf (P ts) p := by
  have within {o : OpenTag} {c : Token} {body : List Token} {p : Phrase}
      (h : EveryOf (P body) p) : EveryOf (P (o.token :: (body ++ [c]))) p :=
    h.mono fun n hn => hmono (by simp) hn
  induction h with
  | text => exact ⟨htext _ _, nofun⟩
  | format ho ha hd hc ih =>
    exact ⟨hroot (.format ho ha hd hc), List.forall_mem_singleton.2 (within ih)⟩
  | link ho hv hd hc ih =>
    exact ⟨hroot (.link ho hv hd hc), List.forall_mem_singleton.2 (within ih)⟩
  | address ho hv hd hc ht =>
    exact ⟨hroot (.address ho hv hd hc ht), List.forall_mem_singleton.2 every_nil⟩
  | self ho ha hc => exact ⟨hroot (.self ho ha hc), nofun⟩
  | wrapper ho ha hd hc ih =>
    refine ⟨hroot (.wrapper ho ha hd hc), fun part hp => ?_⟩
    obtain ⟨b, hb, hd⟩ := List.mem_filterMap.1 hp
    exact within ih b hb part hd
  | switch hn hd ih =>
    refine ⟨hroot (.switch hn hd), fun part hp => ?_⟩
    obtain ⟨b, hb, hd⟩ := List.mem_filterMap.1 hp
    exact ih b hb part hd
  | whenOnly ho hv hp hd hc ih =>
    exact ⟨hroot (.whenOnly ho hv hp hd hc), List.forall_mem_singleton.2 (within ih)⟩
  | @whenElse o e _ _ yes no body other c d ho hv hp hd hc he ha hd' hc' ih ih' =>
    have hyes : Every (P (o.token :: (body ++ c :: e.token :: (other ++ [d])))) yes :=
      Every.mono ih fun n hn => hmono (by simp) hn
    have hno : Every (P (o.token :: (body ++ c :: e.token :: (other ++ [d])))) no :=
      Every.mono ih' fun n hn => hmono (by intro t ht; simp [ht]) hn
    exact ⟨hroot (.whenElse ho hv hp hd hc he ha hd' hc'),
      List.forall_mem_cons.2 ⟨hyes, List.forall_mem_singleton.2 hno⟩⟩
  | nil => exact every_nil
  | @cons mode n ns ts us _ _ ih ih' =>
    have hn : EveryOf (P (ts ++ us)) (.node mode n) :=
      EveryOf.mono ih fun m hm => hmono (List.subset_append_left ts us) hm
    have hns : Every (P (ts ++ us)) ns :=
      Every.mono ih' fun m hm => hmono (List.subset_append_right ts us) hm
    exact every_cons.2 ⟨hn.1, hn.2, hns⟩
  | leaf _ _ _ _ hb _ ih =>
    exact List.forall_mem_singleton.2
      (EveryOf.display_of_leaf (fun _ t _ _ => htext _ t) hb (within ih))
  | nested _ _ _ _ _ ih => exact List.forall_mem_cons.2 ⟨nofun, within ih⟩

/-- What a conditional asks is read from the tag that opens it. -/
theorem asks_of_node {R : Registry} {mode : Mode} {n : Node} {ts : List Token}
    (h : Derives R (.node mode n) ts) : n.Asks R ts := by
  rintro _ _ _ rfl
  cases h with
  | whenOnly ho hv hp => exact ⟨_, _, List.mem_cons_self, ho, hv, hp⟩
  | whenElse ho hv hp => exact ⟨_, _, List.mem_cons_self, ho, hv, hp⟩

/-- **Whatever a phrase asks is read from its tokens.** -/
theorem asks_of_derives {R : Registry} {p : Phrase} {ts : List Token} (h : Derives R p ts) :
    EveryOf (Asks R ts) p :=
  everyOf_of_derives (fun hsub hn => hn.mono hsub) (fun _ _ => nofun) asks_of_node h

end Node

namespace Document

/-- **Only the words of subjects are accepted as parameters.** An expression whose parameter is
    no such word is refused, and every conditional in the tree of a source asks about the
    word that is written in an `[if]` of the source. -/
theorem asks_of_parse (R : Registry) :
    (∀ expression, (∀ s : Subject, s.word ≠ Condition.loweredParameter expression) →
      ∃ problem, Condition.parse R expression = .error ⟨expression, problem⟩ ∧
        (problem = .malformed ∨
          problem = .unknownParameter (.ofList (Condition.parameter expression)))) ∧
    ∀ source ns, parse R source = .ok ns →
      Node.Every (fun n => ∀ condition yes no, n = .conditional condition yes no →
        ∃ o expression, OpenTag.token o ∈ Token.ofSource source ∧ Opens o "if" ∧
          o.tag.value? = some expression ∧ Condition.parse R expression = .ok condition ∧
          condition.subject.word = Condition.loweredParameter expression) ns := by
  constructor
  · intro expression h
    obtain h | h := Condition.refused_of_parameter R h
    · exact ⟨_, h, .inl rfl⟩
    · exact ⟨_, h, .inr rfl⟩
  · intro source ns h
    have hasks : Node.Every (Node.Asks R (Token.ofSource source)) ns :=
      Node.asks_of_derives (ofTokens_eq_ok_iff.1 h)
    refine hasks.mono fun n hn condition yes no hc => ?_
    obtain ⟨o, expression, hm, ho, hv, hp⟩ := hn condition yes no hc
    exact ⟨o, expression, hm, ho, hv, hp, Condition.word_of_parse hp⟩

/-- A parameter that is none, and conditions on all subjects at two depths. -/
theorem asks_of_parse_nested :
    (∃ problem, Condition.parse .builtin "Sites == fa" = .error ⟨"Sites == fa", problem⟩ ∧
      (problem = .malformed ∨
        problem = .unknownParameter (.ofList (Condition.parameter "Sites == fa")))) ∧
    let source := "[if=DEFINE==a][if=site in fa]b[/if][/if][else][if=Constructor!=c]d[/if][/else]"
    ∃ ns, parse .builtin source = .ok ns ∧
      Node.Every (fun n => ∀ condition yes no, n = .conditional condition yes no →
        ∃ o expression, OpenTag.token o ∈ Token.ofSource source ∧ Opens o "if" ∧
          o.tag.value? = some expression ∧ Condition.parse .builtin expression = .ok condition ∧
          condition.subject.word = Condition.loweredParameter expression) ns := by
  have hword : ∀ s : Subject, s.word ≠ Condition.loweredParameter "Sites == fa" := by
    intro s
    cases s <;> decide +kernel
  refine ⟨(asks_of_parse .builtin).1 _ hword, ?_⟩
  intro source
  obtain ⟨ns, h⟩ : ∃ ns, parse .builtin source = .ok ns := exists_of_isOk (by decide +kernel)
  exact ⟨ns, h, (asks_of_parse .builtin).2 source ns h⟩

/-- The word `constructor`, which is not among the words that a refusal says are allowed, is
    accepted as well, and asks about flags. -/
theorem not_only_site_and_define :
    (¬ ∀ (R : Registry) (source : String) (ns : List Node), parse R source = .ok ns →
      Node.Every (fun n => ∀ condition yes no, n = .conditional condition yes no →
        condition.subject = .site ∨ condition.subject = .define) ns) ∧
    ¬ ∀ (R : Registry) (expression : String), Condition.loweredParameter expression ≠ "site" →
      Condition.loweredParameter expression ≠ "define" →
      ∃ e, Condition.parse R expression = .error e := by
  constructor
  · intro h
    have hparse : parse .builtin "[if=constructor==x]y[/if]" =
        .ok [.conditional ⟨.constructor, .equal, ["x"]⟩ [.text "y"] none] := by rfl
    have hask := h .builtin _ _ hparse _ .whole _ List.mem_cons_self _ _ _ rfl
    exact absurd hask (by decide)
  · intro h
    have hparse : Condition.parse .builtin "constructor==x" =
        .ok ⟨.constructor, .equal, ["x"]⟩ := by decide +kernel
    obtain ⟨e, he⟩ := h .builtin "constructor==x" (by decide +kernel) (by decide +kernel)
    rw [hparse] at he
    cases he

end Document

end Crosspost
