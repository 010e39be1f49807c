/-
  Conditionals with two branches.

  * `Document.shown?`: what a destination shows of a source, gaps without their positions;
  * `Conditional.alternatives`: two sources between the tags of a condition and of `[else]`;
  * `Condition.Selects`: an expression that is read as a condition, and holds;
  * `Document.shown?_alternatives`: two sources are shown as the one that the condition picks,
    and so a test as its negation with the branches swapped (`Document.shown?_negated`) and a
    list of operands as the single tests (`Document.shown?_among`);
  * `Document.parse_parted`: no text stands before an `[else]`;
  * `Conditional.branches_shown`: **the laws of conditionals**, for all sources that can be read
    on their own.
-/
import Crosspost.Proofs.Description.ConditionGrammar
import Crosspost.Proofs.Description.Echoes
import Crosspost.Proofs.Description.Shorthands

namespace Crosspost

open Grammar

/-! ## Operands -/

namespace Condition

variable {R : Registry} {expression target : String} {c : Condition} {flags : List String}

/-- A name that may stand as an operand: one that stands for something. -/
def Operand (R : Registry) (s : Subject) (name : String) : Prop :=
  isIdentifier name = true ∧ ∃ operand, Names R s name operand

/-- An expression is read as a condition, and the condition holds. -/
def Selects (R : Registry) (expression target : String) (flags : List String) : Prop :=
  ∃ c, parse R expression = .ok c ∧ c.holds target flags = true

theorem selects_iff (h : parse R expression = .ok c) :
    Selects R expression target flags ↔ c.holds target flags = true := by
  constructor
  · rintro ⟨d, hd, hholds⟩
    rw [h, Except.ok.injEq] at hd
    rwa [hd]
  · exact fun hholds => ⟨c, h, hholds⟩

/-- Names that stand for something make a list of operands. -/
theorem exists_operands {s : Subject} {names : List String} (h : ∀ name ∈ names, Operand R s name) :
    ∃ operands, List.Forall₂ (fun n o => readOperand R s n = .ok o) names operands := by
  induction names with
  | nil => exact ⟨[], .nil⟩
  | cons name names ih =>
    obtain ⟨hname, hnames⟩ := List.forall_mem_cons.1 h
    obtain ⟨operand, ho⟩ := hname.2
    obtain ⟨operands, hos⟩ := ih hnames
    exact ⟨operand :: operands, .cons (readOperand_eq_ok_iff.2 ⟨hname.1, ho⟩) hos⟩

/-- A negated comparison holds where the comparison does not. -/
theorem holds_unequal {s : Subject} {operands : List String} :
    holds ⟨s, .unequal, operands⟩ target flags = !holds ⟨s, .equal, operands⟩ target flags := by
  cases s <;> rfl

/-- A list of operands holds where one of them does. -/
theorem holds_among_iff {s : Subject} {operands : List String} :
    holds ⟨s, .among, operands⟩ target flags = true ↔
      ∃ o ∈ operands, holds ⟨s, .equal, [o]⟩ target flags = true := by
  have haccepts : accepts ⟨s, .among, operands⟩ target flags =
      accepts ⟨s, .equal, operands⟩ target flags := by
    cases s <;> rfl
  have hone : ∀ o, holds ⟨s, .equal, [o]⟩ target flags =
      accepts ⟨s, .equal, operands⟩ target flags o := by
    intro o
    cases s <;> simp [holds, accepts]
  simp only [hone, ← haccepts]
  exact List.any_eq_true

end Condition

namespace Test

variable {R : Registry}

theorem subject?_word (s : Subject) : Condition.subject? s.word.toList = some s := by
  cases s <;> decide

theorem isAlpha_word (s : Subject) : ∀ c ∈ s.word.toList, c.isAlpha = true := by
  cases s <;> exact List.all_eq_true.1 (by decide)

theorem word_ne_nil (s : Subject) : s.word.toList ≠ [] := by
  cases s <;> decide

/-- A test of names that stand for something is read, and asks for what they stand for. -/
theorem parse_operands {t : Test} {s : Subject} {operands : List String} (hne : t.names ≠ [])
    (h : List.Forall₂ (fun n o => Condition.readOperand R s n = .ok o) t.names operands) :
    Condition.parse R (t.expression s.word) = .ok ⟨s, t.comparison, operands⟩ := by
  have hread := mapM_eq_ok.2 h
  have hform : t.WellFormed := ⟨hne, (Condition.mapM_readOperand_eq_ok_iff.1 hread).1⟩
  rw [parse_expression hform (word_ne_nil s) (isAlpha_word s) (subject?_word s), hread]

/-- One of the single tests of some names selects where one of what they stand for does. -/
theorem exists_selects_iff {s : Subject} {names operands : List String} {target : String}
    {flags : List String}
    (h : List.Forall₂ (fun n o => Condition.readOperand R s n = .ok o) names operands) :
    (∃ name ∈ names, Condition.Selects R ((is name).expression s.word) target flags) ↔
      ∃ o ∈ operands, Condition.holds ⟨s, .equal, [o]⟩ target flags = true := by
  induction h with
  | nil => simp
  | cons ho _ ih =>
    have hparse := parse_operands (t := is _) (by simp [Test.names]) (.cons ho .nil)
    simp only [List.exists_mem_cons_iff, ih, Condition.selects_iff hparse]
    rfl

end Test

/-! ## Sources -/

/-- What a destination shows of a source, with gaps but not where they are; nothing if the
    source is refused. -/
def Document.shown? (R : Registry) (usernames : Usernames) (flags : List String)
    (target source : String) : Option Rendered :=
  (parse R source).toOption.map fun ns => (render R usernames flags ns target).unplaced

namespace Conditional

/-- The opening tag of the second branch of a conditional. -/
def elseOpening : Tag := ⟨false, "else".toList, none⟩

/-- The closing tag of the second branch of a conditional. -/
def elseClosing : Tag := ⟨true, "else".toList, none⟩

/-- Two sources as the branches of a conditional. -/
def alternatives (expression yes no : String) : String :=
  "[if=" ++ expression ++ "]" ++ yes ++ "[/if][else]" ++ no ++ "[/else]"

/-- Two sources as the branches of a conditional, with a text between the branches. -/
def parted (expression yes text no : String) : String :=
  "[if=" ++ expression ++ "]" ++ yes ++ "[/if]" ++ text ++ "[else]" ++ no ++ "[/else]"

variable {R : Registry} {expression yes no : String} {c : Condition}

theorem scan_append_raw {t : Tag} (ht : t.Written) (pre post : String) :
    Lexeme.scan (pre ++ (t.raw ++ post)).toList =
      Lexeme.scan pre.toList ++ .tag t :: Lexeme.scan post.toList := by
  rw [String.toList_append, String.toList_append, Tag.raw, String.toList_ofList]
  exact Lexeme.scan_append_tag ht _ _

theorem scan_append_raw_end {t : Tag} (ht : t.Written) (pre : String) :
    Lexeme.scan (pre ++ t.raw).toList = Lexeme.scan pre.toList ++ [.tag t] := by
  have h := scan_append_raw ht pre ""
  rwa [String.append_empty] at h

theorem value?_opening_of_trim (h : Text.trim expression ≠ "") :
    (opening expression).value? = some (Text.trim expression) := by
  have ha : (opening expression).attr = some (Text.trim expression) := rfl
  rw [Tag.value?, ha]
  simp [h]

theorem scan_source (h : Unbracketed expression) (body : String) :
    Lexeme.scan (source expression body).toList =
      .tag (opening expression) :: (Lexeme.scan body.toList ++ [.tag closing]) := by
  rw [source, Document.scan_raw_append (written_opening h), scan_append_raw_end written_closing]

theorem alternatives_eq (expression yes no : String) : alternatives expression yes no =
    (opening expression).raw ++ (yes ++ (closing.raw ++ (elseOpening.raw ++
      (no ++ elseClosing.raw)))) := by
  apply String.toList_injective
  simp [alternatives, opening, closing, elseOpening, elseClosing, Tag.raw, Tag.chars]

theorem scan_alternatives (h : Unbracketed expression) (yes no : String) :
    Lexeme.scan (alternatives expression yes no).toList =
      .tag (opening expression) :: (Lexeme.scan yes.toList ++ .tag closing :: .tag elseOpening ::
        (Lexeme.scan no.toList ++ [.tag elseClosing])) := by
  rw [alternatives_eq, Document.scan_raw_append (written_opening h),
    scan_append_raw written_closing, Document.scan_raw_append (by decide),
    scan_append_raw_end (by decide)]

/-! ## Branches -/

variable {xs ys : List Node}

/-- A source between the tags of a condition makes a conditional. -/
theorem tree?_source (h : Condition.Spells R expression c)
    (hyes : Document.tree? R yes = some xs) :
    Document.tree? R (source expression yes) = some [.conditional c xs none] := by
  have hcondition := Condition.parse_eq_ok_iff.2 h.trim.2
  let o : OpenTag := ⟨opening expression, .nowhere⟩
  have hopens : Opens o "if" := ⟨rfl, name_opening⟩
  have hcloses : Closes o (Lexeme.tag closing).token := ⟨closing, rfl, rfl, rfl, rfl⟩
  have hnode := Derives.whenOnly hopens (value?_opening_of_trim h.trim.1) hcondition
    (Document.tree?_eq_some_iff.1 hyes) hcloses
  have hlist := Derives.cons hnode .nil
  rw [List.append_nil] at hlist
  rw [Document.tree?_eq_some_iff, scan_source h.unbracketed]
  simpa [o, OpenTag.token, Lexeme.token] using hlist

/-- Two sources as branches make a conditional with both. -/
theorem tree?_alternatives (h : Condition.Spells R expression c)
    (hyes : Document.tree? R yes = some xs) (hno : Document.tree? R no = some ys) :
    Document.tree? R (alternatives expression yes no) =
      some [.conditional c xs (some ys)] := by
  have hcondition := Condition.parse_eq_ok_iff.2 h.trim.2
  let o : OpenTag := ⟨opening expression, .nowhere⟩
  let e : OpenTag := ⟨elseOpening, .nowhere⟩
  have hopens : Opens o "if" := ⟨rfl, name_opening⟩
  have hcloses : Closes o (Lexeme.tag closing).token := ⟨closing, rfl, rfl, rfl, rfl⟩
  have hopens' : Opens e "else" := ⟨rfl, by decide⟩
  have hcloses' : Closes e (Lexeme.tag elseClosing).token := ⟨elseClosing, rfl, rfl, rfl, rfl⟩
  have hnode := Derives.whenElse hopens (value?_opening_of_trim h.trim.1) hcondition
    (Document.tree?_eq_some_iff.1 hyes) hcloses hopens' rfl (Document.tree?_eq_some_iff.1 hno)
    hcloses'
  have hlist := Derives.cons hnode .nil
  rw [List.append_nil] at hlist
  rw [Document.tree?_eq_some_iff, scan_alternatives h.unbracketed]
  simpa [o, e, OpenTag.token, Lexeme.token] using hlist

end Conditional

namespace Document

open Conditional

variable {R : Registry} {usernames : Usernames} {flags : List String} {target : String}
  {expression source yes no : String} {c : Condition} {xs ys : List Node}

theorem shown?_eq : shown? R usernames flags target source =
    (tree? R source).map fun ns => render R usernames flags ns target := by
  unfold shown? tree?
  cases parse R source with
  | error e => rfl
  | ok ns => exact congrArg some (render_unplaced R usernames flags ns target).symm

theorem exists_tree?_of_isOk (h : (parse R source).isOk = true) :
    ∃ ns, tree? R source = some ns := by
  obtain ⟨ns, hns⟩ := exists_of_isOk h
  exact ⟨Node.unplaced ns, by rw [tree?, hns]; rfl⟩

/-- A conditional is shown as the branch that its condition picks. -/
theorem render_alternatives :
    render R usernames flags [.conditional c xs (some ys)] target =
      if c.holds target flags then render R usernames flags xs target
      else render R usernames flags ys target := by
  unfold render
  cases h : R.get? target with
  | none => rw [ite_self]
  | some site =>
    have hid : site.id = target := (Registry.get?_eq_some_iff.1 h).2
    simp only [Node.renderAll_singleton, Node.render, Node.renderOption, Option.getD_some, hid]

/-- A missing branch is shown as an empty one. -/
theorem render_conditional_none :
    render R usernames flags [.conditional c xs none] target =
      render R usernames flags [.conditional c xs (some [])] target := by
  unfold render
  cases R.get? target with
  | none => rfl
  | some site =>
    simp only [Node.render, Node.renderOption, Option.getD_some, Option.getD_none, Node.renderAll]

theorem isSome_shown? (h : (parse R source).isOk = true) :
    (shown? R usernames flags target source).isSome = true := by
  obtain ⟨ns, hns⟩ := exists_tree?_of_isOk h
  rw [shown?_eq, hns]
  rfl

section

variable (hyes : (parse R yes).isOk = true) (hno : (parse R no).isOk = true)
include hyes

/-- A missing branch is an empty one. -/
theorem shown?_source (hc : Condition.parse R expression = .ok c) :
    shown? R usernames flags target (Conditional.source expression yes) =
      shown? R usernames flags target (alternatives expression yes "") := by
  obtain ⟨xs, hxs⟩ := exists_tree?_of_isOk hyes
  have hspells := Condition.parse_eq_ok_iff.1 hc
  have hempty : tree? R "" = some [] := tree?_eq_some_iff.2 .nil
  rw [shown?_eq, shown?_eq, tree?_source hspells hxs, tree?_alternatives hspells hxs hempty,
    Option.map_some, Option.map_some, render_conditional_none]

include hno

/-- **Two sources as branches are shown as the one that the condition picks.** -/
theorem shown?_alternatives (hc : Condition.parse R expression = .ok c) :
    shown? R usernames flags target (alternatives expression yes no) =
      if c.holds target flags then shown? R usernames flags target yes
      else shown? R usernames flags target no := by
  obtain ⟨xs, hxs⟩ := exists_tree?_of_isOk hyes
  obtain ⟨ys, hys⟩ := exists_tree?_of_isOk hno
  rw [shown?_eq, shown?_eq, shown?_eq,
    tree?_alternatives (Condition.parse_eq_ok_iff.1 hc) hxs hys, hxs, hys, Option.map_some,
    render_alternatives]
  split_ifs <;> rfl

theorem isSome_shown?_alternatives (hc : Condition.parse R expression = .ok c) :
    (shown? R usernames flags target (alternatives expression yes no)).isSome = true := by
  rw [shown?_alternatives hyes hno hc]
  split_ifs
  · exact isSome_shown? hyes
  · exact isSome_shown? hno

/-- A test shows what its negation shows with the branches swapped. -/
theorem shown?_negated {s : Subject} {name : String} (h : Condition.Operand R s name) :
    ∃ r, shown? R usernames flags target
        (alternatives ((Test.is name).expression s.word) yes no) = some r ∧
      shown? R usernames flags target
        (alternatives ((Test.isNot name).expression s.word) no yes) = some r := by
  have hnames : ∀ n ∈ [name], Condition.Operand R s n := by simpa using h
  obtain ⟨operands, ho⟩ := Condition.exists_operands hnames
  have his := Test.parse_operands (t := .is name) (List.cons_ne_nil _ _) ho
  have hnot := Test.parse_operands (t := .isNot name) (List.cons_ne_nil _ _) ho
  obtain ⟨r, hr⟩ := Option.isSome_iff_exists.1 (isSome_shown?_alternatives hyes hno his)
  refine ⟨r, hr, ?_⟩
  rw [← hr, shown?_alternatives hyes hno his, shown?_alternatives hno hyes hnot]
  simp only [Test.comparison, Condition.holds_unequal]
  by_cases hholds : Condition.holds ⟨s, .equal, operands⟩ target flags = true
  · simp [hholds]
  · simp [hholds]

/-- A test for one of several operands picks as the single tests do. -/
theorem shown?_among {s : Subject} {names : List String} (hne : names ≠ [])
    (h : ∀ name ∈ names, Condition.Operand R s name) :
    ((∃ name ∈ names, Condition.Selects R ((Test.is name).expression s.word) target flags) →
      shown? R usernames flags target
        (alternatives ((Test.among names).expression s.word) yes no) =
          shown? R usernames flags target yes) ∧
    ((¬ ∃ name ∈ names, Condition.Selects R ((Test.is name).expression s.word) target flags) →
      shown? R usernames flags target
        (alternatives ((Test.among names).expression s.word) yes no) =
          shown? R usernames flags target no) := by
  obtain ⟨operands, ho⟩ := Condition.exists_operands h
  have hamong := Test.parse_operands (t := .among names) hne ho
  rw [Test.exists_selects_iff ho, shown?_alternatives hyes hno hamong]
  exact ⟨fun h => if_pos (Condition.holds_among_iff.2 h),
    fun h => if_neg (mt Condition.holds_among_iff.1 h)⟩

end

/-! ## Text between the branches -/

/-- After a text, wherever it stands, a node is expected. -/
theorem expectation_of_step_text {r next : Reading} {cs : List Char} {p : Position}
    (h : Reading.step R r ⟨.text cs, p⟩ = .ok next) : next.expectation = .node := by
  obtain ⟨levels, nodes, expectation⟩ := r
  cases expectation with
  | node | nested | otherwise =>
    cases h
    rfl
  | chain | close => cases h

/-- Where a node is expected, no second branch opens. -/
theorem step_else_eq_error {r : Reading} (h : r.expectation = .node) (p : Position) :
    Reading.step R r ⟨.tag elseOpening, p⟩ = .error ⟨.strayElse, p⟩ := by
  have hkeyword : Keyword.ofName? elseOpening.name = some .otherwise := by decide
  unfold Reading.step
  rw [h]
  simp only [Reading.node, elseOpening, Reading.openNode]
  rfl

/-- Nothing is read across a text before an `[else]`. -/
theorem run_parted (R : Registry) (ts us : List Token) (cs : List Char) (p q : Position)
    (r : Reading) :
    (r.run R (ts ++ ⟨.text cs, p⟩ :: ⟨.tag elseOpening, q⟩ :: us)).toOption = none := by
  induction ts generalizing r with
  | nil =>
    rw [List.nil_append, Reading.run]
    cases hstep : Reading.step R r ⟨.text cs, p⟩ with
    | error e => rfl
    | ok next =>
      have helse := step_else_eq_error (R := R) (expectation_of_step_text hstep) q
      change (next.run R (⟨.tag elseOpening, q⟩ :: us)).toOption = none
      rw [Reading.run, helse]
      rfl
  | cons t ts ih =>
    rw [List.cons_append, Reading.run]
    cases Reading.step R r t with
    | error e => rfl
    | ok next => exact ih next

/-- **No text stands before an `[else]`**, whatever the condition and the branches are. -/
theorem parse_parted (R : Registry) (expression yes no : String) {text : String} (hne : text ≠ "")
    (ht : '[' ∉ text.toList) : ∃ e, parse R (parted expression yes text no) = .error e := by
  have hsource : parted expression yes text no = ((opening expression).raw ++ yes) ++
      (closing.raw ++ (text ++ (elseOpening.raw ++ (no ++ elseClosing.raw)))) := by
    apply String.toList_injective
    simp [parted, opening, closing, elseOpening, elseClosing, Tag.raw, Tag.chars]
  have htree : tree? R (parted expression yes text no) = none := by
    rw [tree?_eq, hsource, scan_append_raw written_closing, scan_append_raw (by decide),
      Lexeme.scan_of_not_mem ht hne, List.map_append, List.map_cons, List.map_append]
    have hrun := run_parted R ((Lexeme.scan ((opening expression).raw ++ yes).toList).map
      Lexeme.token ++ [(Lexeme.tag closing).token])
      ((Lexeme.scan (no ++ elseClosing.raw).toList).map Lexeme.token) text.toList .nowhere .nowhere
      .start
    simpa [Lexeme.token] using hrun
  cases hp : parse R (parted expression yes text no) with
  | error e => exact ⟨e, rfl⟩
  | ok ns =>
    rw [tree?, hp] at htree
    cases htree

end Document

namespace Conditional

open Document

variable {R : Registry} {yes no : String}

/-- **The laws of conditionals.** Two sources that are read on their own are shown as the one
    that a condition selects. So a test shows what its negation shows with the branches
    swapped, a test for one of several operands shows the first branch where one of the single
    tests does, and a missing second branch is an empty one; and the branches are not read with
    a text between them. -/
theorem branches_shown (hyes : (parse R yes).isOk = true) (hno : (parse R no).isOk = true)
    (usernames : Usernames) (flags : List String) (target : String) :
    let shown := shown? R usernames flags target
    (∀ expression c, Condition.parse R expression = .ok c →
      (Condition.Selects R expression target flags →
        shown (alternatives expression yes no) = shown yes) ∧
      (¬ Condition.Selects R expression target flags →
        shown (alternatives expression yes no) = shown no) ∧
      ∃ r, shown (source expression yes) = some r ∧
        shown (alternatives expression yes "") = some r) ∧
    (∀ (s : Subject) name, Condition.Operand R s name →
      ∃ r, shown (alternatives ((Test.is name).expression s.word) yes no) = some r ∧
        shown (alternatives ((Test.isNot name).expression s.word) no yes) = some r) ∧
    (∀ (s : Subject) names, names ≠ [] → (∀ name ∈ names, Condition.Operand R s name) →
      ((∃ name ∈ names, Condition.Selects R ((Test.is name).expression s.word) target flags) →
        shown (alternatives ((Test.among names).expression s.word) yes no) = shown yes) ∧
      ((¬ ∃ name ∈ names, Condition.Selects R ((Test.is name).expression s.word) target flags) →
        shown (alternatives ((Test.among names).expression s.word) yes no) = shown no)) ∧
    (shown yes).isSome = true ∧ (shown no).isSome = true ∧
    ∀ expression text, text ≠ "" → '[' ∉ text.toList →
      ∃ e, parse R (parted expression yes text no) = .error e := by
  intro shown
  refine ⟨fun expression c hc => ⟨fun h => ?_, fun h => ?_, ?_⟩,
    fun s name hname => shown?_negated hyes hno hname,
    fun s names hne hnames => shown?_among hyes hno hne hnames, isSome_shown? hyes,
    isSome_shown? hno, fun expression text hne ht => parse_parted R expression yes no hne ht⟩
  · exact (shown?_alternatives hyes hno hc).trans (if_pos ((Condition.selects_iff hc).1 h))
  · exact (shown?_alternatives hyes hno hc).trans (if_neg (mt (Condition.selects_iff hc).2 h))
  · have hempty : (parse R "").isOk = true := rfl
    obtain ⟨r, hr⟩ := Option.isSome_iff_exists.1 (isSome_shown?_alternatives hyes hempty hc)
    exact ⟨r, (shown?_source hyes hc).trans hr, hr⟩

/-- Branches with half a tag, with `[else]` parts of their own and with text at their edges. -/
theorem branches_shown_nested :
    let yes := "a [if=define==x]b[/if][else]c[/else] [url="
    let no := "]d[self][/self]"
    ∀ usernames flags target,
      ∃ r, shown? .builtin usernames flags target
          (alternatives "site==fa" yes no) = some r ∧
        shown? .builtin usernames flags target (alternatives "site!=fa" no yes) = some r := by
  intro yes no usernames flags target
  have hyes : (parse .builtin yes).isOk = true := by decide +kernel
  have hno : (parse .builtin no).isOk = true := by decide +kernel
  have hoperand : Condition.Operand .builtin .site "fa" :=
    ⟨by decide, "furaffinity", Site.furaffinity, by rfl, by rfl⟩
  have h := (branches_shown hyes hno usernames flags target).2.1 .site "fa" hoperand
  have his : (Test.is "fa").expression Subject.site.word = "site==fa" := by decide
  have hnot : (Test.isNot "fa").expression Subject.site.word = "site!=fa" := by decide
  rwa [his, hnot] at h

end Conditional

end Crosspost
