/-
  Descriptions that depend on the options of a run.

  * `Flags.mem_names_iff`: the flags of a run are its options, each kept as it is;
  * `Test.Passes`: what a test says of the options of a run;
  * `Condition.AsksOptions`: what a condition on flags asks, whatever its text: each operand is
    an option of its own, and is looked for among the options letter by letter;
  * `Flags.render_flagged`: **a source between the tags of a test is shown as on its own where
    the test passes and as nothing elsewhere, and every condition on flags asks for options**.
-/
import Crosspost.Description.Flags
import Crosspost.Proofs.Description.Conditionals
import Crosspost.Proofs.Description.Conditions
import Crosspost.Proofs.Description.Expressions

namespace Crosspost

/-! ## Flags and options -/

namespace Flags

variable {options : List String} {flags : Flags} {f : String}

theorem mem_names_add {option : String} :
    f ∈ (flags.add option).names ↔ f ∈ flags.names ∨ f = option := by
  have hkept : flags.names.contains option = true →
      (f ∈ flags.names ↔ f ∈ flags.names ∨ f = option) := by
    intro hc
    refine ⟨.inl, ?_⟩
    rintro (hf | rfl)
    · exact hf
    · exact List.contains_iff_mem.1 hc
  unfold add
  split_ifs with hc hd
  · exact hkept hc
  · exact hkept hc
  · simp

theorem mem_names_foldl : f ∈ (options.foldl add flags).names ↔ f ∈ flags.names ∨ f ∈ options := by
  induction options generalizing flags with
  | nil => simp
  | cons o options ih => rw [List.foldl_cons, ih, mem_names_add, List.mem_cons, or_assoc]

theorem ofOptions_eq_ok_iff : ofOptions options = .ok flags ↔
    (∀ o ∈ options, isIdentifier o = true) ∧ flags = options.foldl add ⟨[], []⟩ := by
  have hempty : options.filter (!isIdentifier ·) = [] ↔ ∀ o ∈ options, isIdentifier o = true := by
    simp [List.filter_eq_nil_iff]
  unfold ofOptions
  split
  · next he =>
    rw [Except.ok.injEq, eq_comm]
    exact ⟨fun h => ⟨hempty.1 he, h⟩, fun h => h.2⟩
  · next hne =>
    constructor
    · rintro ⟨⟩
    · exact fun h => absurd (hempty.2 h.1) hne

/-- The flags of a run are its options. -/
theorem mem_names_iff (h : ofOptions options = .ok flags) : f ∈ flags.names ↔ f ∈ options := by
  rw [(ofOptions_eq_ok_iff.1 h).2, mem_names_foldl]
  simp

theorem isOk_ofOptions_singleton (h : isIdentifier f = true) : (ofOptions [f]).isOk = true := by
  rw [ofOptions_eq_ok_iff.2 ⟨by simpa using h, rfl⟩]
  rfl

end Flags

/-! ## Conditions on flags -/

/-- What a test says of the options of a run. -/
def Test.Passes (options : List String) : Test → Prop
  | is name => name ∈ options
  | isNot name => name ∉ options
  | among names => ∃ name ∈ names, name ∈ options

namespace Condition

variable {R : Registry} {condition : Condition} {expression target : String}
  {options : List String} {flags : Flags}

theorem holds_flags (h : condition.subject ≠ .site) (target : String) (names : List String) :
    condition.holds target names = true ↔
      (condition.comparison ≠ .unequal ↔ ∃ o ∈ condition.operands, o ∈ names) := by
  have haccepts : condition.accepts target names = fun o => names.contains o := by
    funext o
    unfold accepts
    cases hs : condition.subject
    · exact absurd hs h
    · rfl
    · rfl
  have hany : condition.operands.any (condition.accepts target names) = true ↔
      ∃ o ∈ condition.operands, o ∈ names := by
    simp [haccepts]
  unfold holds
  cases hc : condition.comparison with
  | unequal =>
    simp only [← hany, ne_eq, not_true_eq_false, false_iff, Bool.not_eq_true, Bool.not_eq_true']
  | equal => simp [← hany]
  | among => simp [← hany]

theorem holds_of_test (h : Flags.ofOptions options = .ok flags) (t : Test) (target : String) :
    Condition.holds ⟨.define, t.comparison, t.names⟩ target flags.names = true ↔
      t.Passes options := by
  rw [holds_flags (by simp)]
  simp only [Flags.mem_names_iff h]
  cases t <;> simp [Test.comparison, Test.names, Test.Passes]

/-- Flags are not changed when they are read. -/
theorem mapM_readOperand_flag {subject : Subject} (hs : subject ≠ .site) {names : List String}
    (h : ∀ name ∈ names, isIdentifier name = true) :
    names.mapM (readOperand R subject) = .ok names := by
  have hread : ∀ name ∈ names, readOperand R subject name = .ok name := by
    intro name hn
    unfold readOperand
    rw [h name hn]
    cases subject with
    | site => exact absurd rfl hs
    | _ => rfl
  exact mapM_eq_ok.2 (List.forall₂_same.2 hread)

/-- What a condition on flags asks of the options of a run. -/
structure AsksOptions (expression : String) (condition : Condition) (options names : List String) :
    Prop where
  /-- Its operands are as they are written. -/
  written : ∃ parts, split? expression.toList = some parts ∧
    condition.operands = writtenOperands parts
  option : ∀ o ∈ condition.operands, (Flags.ofOptions [o]).isOk = true
  /-- An operand counts where it is an option itself, in the same letter case. -/
  holds : ∀ target, condition.holds target names = true ↔
    (condition.comparison ≠ .unequal ↔ ∃ o ∈ condition.operands, o ∈ options)

theorem eq_of_mapM_readOperand {subject : Subject} (hs : subject ≠ .site)
    {names operands : List String} (h : names.mapM (readOperand R subject) = .ok operands) :
    names = operands := by
  have heq : ∀ a b, readOperand R subject a = .ok b → a = b := by
    intro a b hab
    unfold readOperand at hab
    split_ifs at hab
    cases subject with
    | site => exact absurd rfl hs
    | _ => exact Except.ok.inj hab
  have hall : List.Forall₂ (· = ·) names operands := (mapM_eq_ok.1 h).imp fun a b => heq a b
  rwa [List.forall₂_eq_eq_eq] at hall

theorem operands_of_ofParts {parts : Parts} (h : ofParts R parts = .ok condition)
    (hs : condition.subject ≠ .site) : condition.operands = writtenOperands parts := by
  unfold ofParts at h
  cases hsub : subject? parts.name with
  | none => simp [hsub] at h
  | some subject =>
    simp only [hsub] at h
    split at h
    · cases h
    · cases h
    · obtain ⟨operands, ho, hc⟩ := bind_eq_ok.1 h
      cases hc
      exact (eq_of_mapM_readOperand hs ho).symm

theorem asksOptions (ho : Flags.ofOptions options = .ok flags)
    (h : parse R expression = .ok condition) (hs : condition.subject ≠ .site) :
    AsksOptions expression condition options flags.names := by
  constructor
  · unfold parse at h
    cases hsplit : split? expression.toList with
    | none => simp [hsplit] at h
    | some parts =>
      simp only [hsplit] at h
      cases hp : ofParts R parts with
      | error e => simp [hp, Except.mapError] at h
      | ok c =>
        simp only [hp, Except.mapError, Except.ok.injEq] at h
        subst h
        exact ⟨parts, rfl, operands_of_ofParts hp hs⟩
  · intro o hm
    exact Flags.isOk_ofOptions_singleton ((sound_of_parse h).identifier hs o hm)
  · intro target
    rw [holds_flags hs]
    simp only [Flags.mem_names_iff ho]

end Condition

/-! ## Sources between the tags of a test -/

namespace Flags

open Conditional

/-- **A source between the tags of a test is shown as on its own where the test passes, with the
    gaps where its tags now are, and as nothing elsewhere; and every condition on flags that is
    read asks for options.** -/
theorem render_flagged {R : Registry} {options : List String} {flags : Flags}
    (ho : ofOptions options = .ok flags) :
    (∀ t : Test, t.WellFormed → ∀ body ns, Document.parse R body = .ok ns →
      ∃ ms, Document.parse R (source (t.expression "define") body) = .ok ms ∧
        ∀ site ∈ R.sites, ∀ usernames,
          (t.Passes options → Document.render R usernames flags.names ms site.id =
            (Document.render R usernames flags.names ns site.id).move
              (inside (t.expression "define") body)) ∧
          (¬ t.Passes options →
            Document.render R usernames flags.names ms site.id = .ok .empty)) ∧
    ∀ expression condition, Condition.parse R expression = .ok condition →
      condition.subject ≠ .site →
        condition.AsksOptions expression options flags.names := by
  have hword : ∀ c ∈ "define".toList, c.isAlpha = true := List.all_eq_true.1 (by decide)
  have hne : "define".toList ≠ [] := by decide
  have hsubject : Condition.subject? "define".toList = some .define := by decide
  refine ⟨fun t ht body ns hbody => ?_, fun expression condition h hs =>
    Condition.asksOptions ho h hs⟩
  have hcondition : Condition.parse R (t.expression "define") =
      .ok ⟨.define, t.comparison, t.names⟩ := by
    have hread : t.names.mapM (Condition.readOperand R .define) = .ok t.names :=
      Condition.mapM_readOperand_flag (by simp) ht.identifier
    rw [Test.parse_expression ht hne hword hsubject, hread]
  have hparse := parse_of_parse (ht.unbracketed_expression hword) (ht.trimmed_expression hne hword)
    hcondition hbody
  refine ⟨_, hparse, fun site hsite usernames => ⟨fun hp => ?_, fun hp => ?_⟩⟩
  · rw [render_conditional hsite, if_pos ((Condition.holds_of_test ho t site.id).2 hp)]
  · rw [render_conditional hsite, if_neg (mt (Condition.holds_of_test ho t site.id).1 hp)]

theorem render_flagged_letter_case :
    let options := ["a", "B", "a"]
    let body := "x[self][/self]"
    let expression := (Test.among ["b", "B"]).expression "define"
    ∃ flags ns ms, Flags.ofOptions options = .ok flags ∧
      source expression body = "[if=define in b,B]x[self][/self][/if]" ∧
      Document.parse .builtin body = .ok ns ∧
      Document.parse .builtin (source expression body) = .ok ms ∧
      ∀ site ∈ Registry.builtin.sites, ∀ usernames,
        Document.render .builtin usernames flags.names ms site.id =
          (Document.render .builtin usernames flags.names ns site.id).move
            (inside expression body) := by
  intro options body expression
  have ht : (Test.among ["b", "B"]).WellFormed := ⟨by decide, by decide⟩
  have hpass : (Test.among ["b", "B"]).Passes options := ⟨"B", by decide, by decide⟩
  obtain ⟨ns, hbody⟩ :=
    exists_of_isOk (show (Document.parse .builtin body).isOk = true by decide +kernel)
  have hopt : Flags.ofOptions options = .ok ⟨["a", "B"], ["a"]⟩ := by decide
  obtain ⟨ms, hms, hrender⟩ := (render_flagged hopt).1 _ ht body ns hbody
  exact ⟨_, ns, ms, hopt, by decide +kernel, hbody, hms, fun site hs usernames =>
    (hrender site hs usernames).1 hpass⟩

end Flags

end Crosspost
