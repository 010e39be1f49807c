/-
  Sources that are refused.

  A token that does not fit is at fault whatever follows it. A source that is refused for one
  of its tokens is refused with more behind it, too, if that adds nothing to its last token.

  * `Reading.opens_of_step` and `Reading.step_opens`: a wrapper waits for its first switch tag
    just behind the tag that opens it;
  * `Document.EndsAtWrapper ts e`: the error `e` is that the last of `ts` opens a wrapper;
    `Document.finish_eq_error`: this is one way to run out of tokens, an open tag the other;
  * `Document.parse_refused`: **a source is refused at a token of it, and with more behind it
    as it is on its own**.
-/
import Crosspost.Proofs.Description.Descent
import Crosspost.Proofs.Description.Joining

namespace Crosspost

open Grammar

/-! ## Wrappers -/

namespace Reading

variable {R : Registry} {r next : Reading} {t : Token} {w : OpenTag} {kind : SwitchKind}

theorem expectation_awaitAll {closings : List (OpenTag × Problem)} {done : Node} :
    (r.awaitAll closings done).expectation ≠ .chain w kind := by
  cases closings <;> simp [awaitAll, add, await]

theorem expectation_leave {frame : Frame} {ns : List Node} (h : leave R r frame ns = .ok next) :
    next.expectation ≠ .chain w kind := by
  cases frame with
  | format _ k | whenTrue _ c | whenFalse _ c yes =>
    cases h
    simp [add, await]
  | link o =>
    cases hv : o.tag.value? with
    | some url =>
      simp only [leave, hv, Except.ok.injEq] at h
      simp [← h, add]
    | none =>
      simp only [leave, hv] at h
      split_ifs at h
      · cases h
      · cases h
        simp [add]
  | label c =>
    obtain ⟨b, -, -, rfl⟩ := closeChain_eq_ok_iff.1 h
    exact expectation_awaitAll

/-- A node that waits for a switch tag was opened by a wrapper, where one may stand. -/
theorem opens_of_node (h : node R r t = .ok next) (hnext : next.expectation = .chain w kind) :
    t = w.token ∧ Opens w kind.name ∧ r.isInline = false := by
  obtain ⟨lexeme, p⟩ := t
  cases lexeme with
  | text cs =>
    cases h
    cases hnext
  | tag tag =>
    cases hc : tag.closing with
    | true =>
      simp only [node, hc, if_true] at h
      obtain ⟨frame, before, levels, -, -, -, hleave⟩ := closeNode_eq_ok_iff.1 h
      exact absurd hnext (expectation_leave hleave)
    | false =>
      simp only [node, hc, Bool.false_eq_true, if_false] at h
      cases openNode_eq_ok_iff.1 h with
      | wrapper hk _ hr =>
        cases hnext
        exact ⟨rfl, ⟨hc, Keyword.ofName?_eq_some_iff.1 hk⟩, hr⟩
      | format | link | self | condition | switch => cases hnext

/-- What waits for a switch tag has just read the tag of a wrapper, and not inside another. -/
theorem opens_of_step (h : step R r t = .ok next) (hnext : next.expectation = .chain w kind) :
    t = w.token ∧ Opens w kind.name ∧ (∀ w' k, r.expectation ≠ .chain w' k) ∧
      ∀ c, r.expectation ≠ .nested c := by
  obtain ⟨levels, nodes, expectation⟩ := r
  cases expectation with
  | node =>
    obtain ⟨ht, hw, -⟩ := opens_of_node (r := ⟨levels, nodes, .node⟩) h hnext
    exact ⟨ht, hw, by simp, by simp⟩
  | chain w' k =>
    simp only [step] at h
    split at h
    · cases h
      cases hnext
    · cases h
  | nested c =>
    simp only [step] at h
    split at h
    · obtain ⟨c', -, h⟩ := bind_eq_ok.1 h
      cases h
      cases hnext
    · obtain ⟨-, -, hinline⟩ := opens_of_node h hnext
      cases hinline
  | close o problem more done =>
    simp only [step] at h
    obtain ⟨-, h⟩ := then_eq_ok.1 h
    cases more <;> cases h <;> cases hnext
  | otherwise condition yes =>
    by_cases he : isElse t = true
    · obtain ⟨e, ho, rfl⟩ := isElse_eq_true_iff.1 he
      rw [step_else ho] at h
      obtain ⟨-, h⟩ := then_eq_ok.1 h
      cases h
      cases hnext
    · rw [Bool.not_eq_true] at he
      rw [step_otherwise he] at h
      obtain ⟨ht, hw, -⟩ := opens_of_node h hnext
      exact ⟨ht, hw, by simp, by simp⟩

/-- The tag of a wrapper in the place of a node. -/
theorem node_opens {o : OpenTag} (ho : Opens o kind.name) (h : node R r o.token = .ok next) :
    r.isInline = false ∧ next.expectation = .chain o kind := by
  have hk : Keyword.ofName? o.tag.name = some (.wrapper kind) := ho.2 ▸ Keyword.ofName?_name kind
  have hopened : openNode R r o = .ok next := by simpa [node, OpenTag.token, ho.1] using h
  cases openNode_eq_ok_iff.1 hopened with
  | wrapper hk' _ hr =>
    rw [hk] at hk'
    cases hk'
    exact ⟨hr, rfl⟩
  | format hk' | link hk' | self hk' | condition hk' | switch hk' =>
    rw [hk] at hk'
    cases hk'

/-- Behind the tag of a wrapper a switch tag is expected, or may follow. -/
theorem step_opens {o : OpenTag} (ho : Opens o kind.name) (h : step R r o.token = .ok next) :
    (∃ w k, next.expectation = .chain w k) ∨ ∃ c, next.expectation = .nested c := by
  obtain ⟨levels, nodes, expectation⟩ := r
  cases expectation with
  | node => exact .inl ⟨o, kind, (node_opens (r := ⟨levels, nodes, .node⟩) ho h).2⟩
  | chain w k =>
    simp only [step] at h
    split at h
    · cases h
      exact .inr ⟨_, rfl⟩
    · cases h
  | nested c =>
    simp only [step] at h
    split at h
    · obtain ⟨c', -, h⟩ := bind_eq_ok.1 h
      cases h
      exact .inr ⟨c', rfl⟩
    · obtain ⟨hinline, -⟩ := node_opens ho h
      cases hinline
  | close o' problem more done =>
    simp only [step] at h
    obtain ⟨hclose, -⟩ := then_eq_ok.1 h
    have hc : expectClose o' problem o.token = Reading.fault problem o.position := by
      simp [expectClose, OpenTag.token, ho.1]
    rw [hc] at hclose
    cases hclose
  | otherwise condition yes =>
    have he : isElse o.token = false := by
      simp only [isElse, OpenTag.token, ho.1, ho.2]
      cases kind <;> decide
    rw [step_otherwise he] at h
    exact .inl ⟨o, kind, (node_opens ho h).2⟩

/-- A text that does not fit does so whatever it says. -/
theorem step_text_eq_error {cs : List Char} {p : Position} {e : ParseError}
    (h : step R r ⟨.text cs, p⟩ = .error e) (cs' : List Char) :
    step R r ⟨.text cs', p⟩ = .error e := by
  obtain ⟨levels, nodes, expectation⟩ := r
  cases expectation with
  | node | nested c | otherwise condition yes => cases h
  | chain w k => exact h
  | close o problem more done => exact h

end Reading

/-! ## Running out of tokens -/

namespace Document

open Reading

variable {R : Registry} {ts : List Token} {e : ParseError}

/-- The tokens end with the tag of a wrapper, and the error is that it is empty. A wrapper just
    in front of this tag would be at fault itself, for what it contains. -/
def EndsAtWrapper (ts : List Token) (e : ParseError) : Prop :=
  ∃ before w kind, ts = before ++ [OpenTag.token w] ∧ Opens w kind.name ∧
    e = ⟨.wrapperWithoutSwitch kind, w.position⟩ ∧
    ∀ o kind, before.getLast? = some (OpenTag.token o) → ¬ Opens o (SwitchKind.name kind)

theorem foldlM_concat {r : Reading} {before : List Token} {t : Token} {next : Reading}
    (h : (before ++ [t]).foldlM (step R) r = .ok next) :
    ∃ r', before.foldlM (step R) r = .ok r' ∧ step R r' t = .ok next := by
  rw [List.foldlM_append] at h
  obtain ⟨r', hbefore, h⟩ := bind_eq_ok.1 h
  rw [List.foldlM_cons] at h
  obtain ⟨next', ht, h⟩ := bind_eq_ok.1 h
  cases h
  exact ⟨r', hbefore, ht⟩

/-- Tokens after which a wrapper waits for its switch tag end with its own tag. -/
theorem endsAtWrapper_of_foldlM {r : Reading} {w : OpenTag} {kind : SwitchKind}
    (h : ts.foldlM (step R) start = .ok r) (hr : r.expectation = .chain w kind) :
    EndsAtWrapper ts ⟨.wrapperWithoutSwitch kind, w.position⟩ := by
  rcases List.eq_nil_or_concat' ts with rfl | ⟨before, t, rfl⟩
  · cases h
    cases hr
  · obtain ⟨r', hbefore, ht⟩ := foldlM_concat h
    obtain ⟨rfl, hw, hchain, hnested⟩ := opens_of_step ht hr
    refine ⟨before, w, kind, rfl, hw, rfl, fun o k hlast ho => ?_⟩
    obtain ⟨before', rfl⟩ := List.getLast?_eq_some_iff.1 hlast
    obtain ⟨r'', -, ho'⟩ := foldlM_concat hbefore
    rcases step_opens ho ho' with ⟨w', k', h'⟩ | ⟨c, h'⟩
    · exact hchain w' k' h'
    · exact hnested c h'

theorem complete_eq_error {r : Reading} (h : r.complete = .error e) :
    ∃ raw, e.problem = .unclosed raw := by
  unfold complete at h
  cases hl : r.levels with
  | nil => simp [hl] at h
  | cons level levels =>
    simp only [hl] at h
    cases h
    exact ⟨_, rfl⟩

/-- What runs out of tokens leaves a tag open, or ends with a wrapper. -/
theorem finish_eq_error {r : Reading} (h : ts.foldlM (step R) start = .ok r)
    (he : r.finish = .error e) : (∃ raw, e.problem = .unclosed raw) ∨ EndsAtWrapper ts e := by
  unfold finish at he
  cases hr : r.expectation with
  | node =>
    simp only [hr] at he
    exact .inl (complete_eq_error he)
  | chain w kind =>
    simp only [hr] at he
    cases he
    exact .inr (endsAtWrapper_of_foldlM h hr)
  | nested c =>
    simp only [hr] at he
    cases he
    exact .inl ⟨_, rfl⟩
  | close o problem more done =>
    simp only [hr] at he
    cases he
    exact .inl ⟨_, rfl⟩
  | otherwise condition yes =>
    simp only [hr] at he
    exact .inl (complete_eq_error he)

/-! ## More tokens -/

/-- The tokens of a source and those of a longer one, as far as the first one goes: they are
    the same up to a last text, which may go on. -/
theorem foldlM_ofSource_append {a more : String} (hm : ∀ c ∈ more.toList.head?, c = '[')
    (h : (Token.ofSource a).foldlM (step R) start = .error e) :
    (Token.ofSource (a ++ more)).foldlM (step R) start = .error e := by
  obtain ⟨ks, rest, hl, hr⟩ :=
    Lexeme.exists_scanFrom_append (Lexeme.parted_of_bracket a.toList hm) []
  rw [← Lexeme.scan] at hl hr
  rw [Token.ofSource, hl, Token.place_append, List.foldlM_append] at h
  rw [Token.ofSource, String.toList_append, hr, Token.place_append, List.foldlM_append]
  cases hks : (Token.place .start ks).foldlM (step R) start with
  | error e' =>
    rw [hks] at h
    exact h
  | ok r =>
    rw [hks] at h
    cases rest with
    | nil => cases h
    | cons c rest =>
      obtain ⟨cs, ls, htext⟩ := Lexeme.exists_scanFrom_eq (List.cons_ne_nil c rest) more.toList
      rw [htext]
      simp only [bind, Except.bind, Lexeme.flush, Token.place, List.foldlM_cons] at h ⊢
      cases ht : step R r ⟨.text (c :: rest).reverse,
          (Cursor.start.passAll (ks.flatMap Lexeme.chars)).position⟩ with
      | ok next =>
        rw [ht] at h
        cases h
      | error e' =>
        rw [ht] at h
        rw [step_text_eq_error ht]
        exact h

/-- A source that is refused for one of its tokens is refused with more behind it. -/
theorem parse_append_eq_error {a more : String} (h : parse R a = .error e)
    (hm : ∀ c ∈ more.toList.head?, c = '[') (hopen : ∀ raw, e.problem ≠ .unclosed raw)
    (hend : ¬ EndsAtWrapper (Token.ofSource a) e) : parse R (a ++ more) = .error e := by
  unfold parse ofTokens at h ⊢
  cases hfold : (Token.ofSource a).foldlM (step R) start with
  | error e' =>
    rw [hfold] at h
    rw [foldlM_ofSource_append hm hfold]
    exact h
  | ok r =>
    rw [hfold] at h
    rcases finish_eq_error hfold h with ⟨raw, hraw⟩ | hw
    · exact absurd hraw (hopen raw)
    · exact absurd hw hend

/-- **A source is refused at a token of it, and with more behind it as it is on its own.** A
    descent through its tokens ends as the reading does, with a tree or with such an error. -/
theorem parse_refused (R : Registry) (source : String) :
    Descent.ofTokens R (Token.ofSource source) = Descent.lift (parse R source) ∧
      ∀ e, parse R source = .error e →
        (∃ t ∈ Token.ofSource source, e.position = locate source t.start) ∧
          ((∀ raw, e.problem ≠ .unclosed raw) → ¬ EndsAtWrapper (Token.ofSource source) e →
            ∀ more, (more = "" ∨ more.toList.head? = some '[') →
              parse R (source ++ more) = .error e) := by
  refine ⟨Descent.ofTokens_eq (Token.isChain_place .start _), fun e he => ⟨?_, ?_⟩⟩
  · obtain ⟨t, ht, hp⟩ := exists_position_eq he
    exact ⟨t, ht, hp ▸ Token.position_eq_locate ht⟩
  · intro hopen hend more hm
    refine parse_append_eq_error he (fun c hc => ?_) hopen hend
    rcases hm with rfl | hm
    · cases hc
    · rw [hm] at hc
      exact (Option.some.inj hc).symm

/-- A wrapper in a wrapper is at fault, though the source ends there. -/
theorem parse_refused_wrapper_in_wrapper :
    let source := "[user][user]"
    let e : ParseError := ⟨.wrapperWithoutSwitch .user, ⟨6, 1, 7⟩⟩
    parse .builtin source = .error e ∧
      parse .builtin (source ++ "[fa]tester[/fa][/user]") = .error e := by
  intro source e
  have he : parse .builtin source = .error e := errorOf?_eq_some_iff.1 (by decide +kernel)
  have htokens : Token.ofSource source = [⟨.tag ⟨false, "user".toList, none⟩, ⟨0, 1, 1⟩⟩] ++
      [⟨.tag ⟨false, "user".toList, none⟩, ⟨6, 1, 7⟩⟩] := by decide +kernel
  have hend : ¬ EndsAtWrapper (Token.ofSource source) e := by
    rintro ⟨before, w, kind, hts, -, -, hbefore⟩
    rw [htokens] at hts
    obtain ⟨rfl, -⟩ := List.append_inj' hts rfl
    exact hbefore ⟨⟨false, "user".toList, none⟩, ⟨0, 1, 1⟩⟩ .user rfl ⟨rfl, rfl⟩
  exact ⟨he, ((parse_refused .builtin source).2 e he).2 (by simp [e]) hend _ (.inr (by rfl))⟩

end Document

end Crosspost
