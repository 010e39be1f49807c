/-
  Formatting puts its marks around text, and adds and drops nothing else.

  * `Lexeme.untagged ls`: the text of some lexemes, without their tags;
  * `Lexeme.Wrapped dialect ls shown`: `shown` is that text, with the marks of the dialect around
    what the tags of formatting enclose, unless that is blank; elements lie inside or beside one
    another. `Lexeme.Wrapped.eq_untagged`: without marks it is the text;
  * `Document.wrapped_of_parse`: **a source of text and formatting is shown as its text with the
    marks of the destination put in**, and its text is what the tree holds.
-/
import Crosspost.Proofs.Description.Verbatim
import Crosspost.Proofs.Text.Trimming

namespace Crosspost

open Grammar

/-! ## Marks around text -/

namespace Lexeme

/-- The names of the tags of formatting. -/
def formatNames : List String := ["b", "i", "u"]

/-- The text of a lexeme; a tag has none. -/
def textChars : Lexeme → List Char
  | text cs => cs
  | tag _ => []

/-- The text of some lexemes, without their tags. -/
def untagged (ls : List Lexeme) : String := .ofList (ls.flatMap textChars)

@[simp] theorem untagged_text (cs : List Char) : untagged [.text cs] = .ofList cs := by
  simp [untagged, textChars]

@[simp] theorem untagged_append (ls ms : List Lexeme) :
    untagged (ls ++ ms) = untagged ls ++ untagged ms := by
  simp [untagged]

@[simp] theorem untagged_element (o c : Tag) (body : List Lexeme) :
    untagged (tag o :: (body ++ [tag c])) = untagged body := by
  simp [untagged, textChars]

/-- Two tags open and close formatting of a kind. -/
structure Pairs (kind : FormatKind) (o c : Tag) : Prop where
  opening : o.closing = false
  name : o.name = kind.tagName
  closing : c.closing = true
  closing_name : c.name = kind.tagName

/-- A text is that of some lexemes, with marks around what tags of formatting enclose. Blank text
    takes no marks, and neither does what the dialect has none for. -/
inductive Wrapped (dialect : Dialect) : List Lexeme → String → Prop
  | nil : Wrapped dialect [] ""
  | text (cs : List Char) : Wrapped dialect [.text cs] (.ofList cs)
  | append {ls ms : List Lexeme} {shown rest : String} : Wrapped dialect ls shown →
      Wrapped dialect ms rest → Wrapped dialect (ls ++ ms) (shown ++ rest)
  | bare {kind : FormatKind} {o c : Tag} {body : List Lexeme} {shown : String} :
      Pairs kind o c → Wrapped dialect body shown →
      Text.isBlank (untagged body) = true ∨ dialect.marks? kind = none →
      Wrapped dialect (tag o :: (body ++ [tag c])) shown
  | marked {kind : FormatKind} {o c : Tag} {body : List Lexeme} {before shown after : String} :
      Pairs kind o c → Wrapped dialect body shown → Text.isBlank (untagged body) = false →
      dialect.marks? kind = some (before, after) →
      Wrapped dialect (tag o :: (body ++ [tag c])) (before ++ shown ++ after)

namespace Wrapped

variable {dialect : Dialect} {ls body : List Lexeme} {shown : String} {kind : FormatKind}
  {o c : Tag}

/-- Marks are put around no blank text. -/
theorem isBlank_eq (h : Wrapped dialect ls shown) :
    Text.isBlank shown = Text.isBlank (untagged ls) := by
  induction h with
  | nil => rfl
  | text cs => rw [untagged_text]
  | append _ _ ih ih' => rw [untagged_append, Text.isBlank_append, Text.isBlank_append, ih, ih']
  | bare _ _ _ ih => rw [untagged_element, ih]
  | marked _ _ hblank _ ih =>
    rw [untagged_element, Text.isBlank_append, Text.isBlank_append, ih, hblank, Bool.and_false,
      Bool.false_and]

/-- A dialect without marks shows the text alone. -/
theorem eq_untagged (h : Wrapped dialect ls shown) (hplain : ∀ kind, dialect.marks? kind = none) :
    shown = untagged ls := by
  induction h with
  | nil => rfl
  | text cs => rw [untagged_text]
  | append _ _ ih ih' => rw [untagged_append, ih, ih']
  | bare _ _ _ ih => rw [untagged_element, ih]
  | marked _ _ _ hmarks =>
    rw [hplain] at hmarks
    cases hmarks

/-- What a site makes of formatted text. -/
theorem format (hpair : Pairs kind o c) (h : Wrapped dialect body shown) :
    Wrapped dialect (tag o :: (body ++ [tag c])) (dialect.format kind shown) := by
  rw [Dialect.format, h.isBlank_eq]
  cases hblank : Text.isBlank (untagged body) with
  | true => exact .bare hpair h (.inl hblank)
  | false =>
    rw [if_neg Bool.false_ne_true, Dialect.wrap?]
    cases hmarks : dialect.marks? kind with
    | none => exact .bare hpair h (.inr hmarks)
    | some marks => exact .marked hpair h hblank hmarks

end Wrapped

end Lexeme

/-! ## Phrases of formatting -/

namespace Grammar

open Lexeme (untagged Wrapped)

/-- The tree of a phrase has the text of the tokens, and is shown as that text with marks. -/
def Shows (ctx : RenderContext) : Phrase → List Token → Prop
  | .node _ n, ts => n.plain = untagged (ts.map (·.lexeme)) ∧
      ∃ shown, n.render ctx = .ok (.ofText shown) ∧
        Wrapped ctx.site.dialect (ts.map (·.lexeme)) shown
  | .nodes _ ns, ts => Node.plainText ns = untagged (ts.map (·.lexeme)) ∧
      ∃ shown, Node.renderAll ctx ns = .ok (.ofText shown) ∧
        Wrapped ctx.site.dialect (ts.map (·.lexeme)) shown
  | .chain .., _ => True

theorem Shows.format {ctx : RenderContext} {mode : Mode} {kind : FormatKind} {o : OpenTag}
    {ns : List Node} {body : List Token} {c : Token} (ho : Opens o kind.tagName) (hc : Closes o c)
    (h : Shows ctx (.nodes mode ns) body) :
    Shows ctx (.node mode (.format kind ns)) (o.token :: (body ++ [c])) := by
  obtain ⟨hplain, shown, hrender, hwrapped⟩ := h
  obtain ⟨_, p⟩ := c
  obtain ⟨tag, rfl, hclosing, hname, -⟩ := hc
  have hlexemes : (o.token :: (body ++ [⟨.tag tag, p⟩])).map (·.lexeme) =
      .tag o.tag :: (body.map (·.lexeme) ++ [.tag tag]) := by
    simp [OpenTag.token]
  rw [Shows, hlexemes, Node.plain, Node.render, hrender, Lexeme.untagged_element]
  exact ⟨hplain, _, rfl, hwrapped.format ⟨ho.1, ho.2, hclosing, hname.trans ho.2⟩⟩

theorem Shows.cons {ctx : RenderContext} {mode : Mode} {n : Node} {ns : List Node}
    {ts us : List Token} (hn : Shows ctx (.node mode n) ts) (hns : Shows ctx (.nodes mode ns) us) :
    Shows ctx (.nodes mode (n :: ns)) (ts ++ us) := by
  obtain ⟨hplain, shown, hrender, hwrapped⟩ := hn
  obtain ⟨hplain', rest, hrender', hwrapped'⟩ := hns
  rw [Shows, Node.plainText, Node.renderAll, hrender, hrender', List.map_append,
    Lexeme.untagged_append, hplain, hplain']
  exact ⟨rfl, _, rfl, hwrapped.append hwrapped'⟩

/-- **A phrase of text and formatting is shown as its text with marks.** -/
theorem shows_of_derives {R : Registry} (ctx : RenderContext) {p : Phrase} {ts : List Token}
    (h : Derives R p ts)
    (hnames : ∀ t ∈ Lexeme.tags (ts.map (·.lexeme)), t.name ∈ Lexeme.formatNames) :
    Shows ctx p ts := by
  -- a phrase that starts with a tag of another name is none of these
  have named {o : OpenTag} {us : List Token}
      (h : ∀ t ∈ Lexeme.tags ((o.token :: us).map (·.lexeme)), t.name ∈ Lexeme.formatNames) :
      o.tag.name ∈ Lexeme.formatNames :=
    h o.tag (mem_tags_opening ..)
  induction h with
  | text => exact ⟨by simp [Node.plain], _, rfl, .text _⟩
  | format ho _ _ hc ih =>
    refine .format ho hc (ih fun t ht => hnames t ?_)
    simp_all
  | link ho => exact absurd (ho.2 ▸ named hnames) (by decide)
  | address ho => exact absurd (ho.2 ▸ named hnames) (by decide)
  | self ho => exact absurd (ho.2 ▸ named hnames) (by decide)
  | @wrapper kind _ _ _ _ ho =>
    refine absurd (ho.2 ▸ named hnames) ?_
    cases kind <;> decide
  | switch hn =>
    have hformat : Lexeme.formatNames ⊆ reserved := by decide
    exact absurd (hformat (named hnames)) hn
  | whenOnly ho => exact absurd (ho.2 ▸ named hnames) (by decide)
  | whenElse ho => exact absurd (ho.2 ▸ named hnames) (by decide)
  | nil => exact ⟨rfl, _, rfl, .nil⟩
  | cons _ _ ih ih' =>
    refine .cons (ih fun t ht => hnames t ?_) (ih' fun t ht => hnames t ?_)
    · simp_all
    · simp_all
  | leaf | nested => trivial

end Grammar

/-! ## Documents -/

namespace Document

variable {R : Registry} {source : String} {ns : List Node}

/-- **A source of text and formatting is shown as its text, with the marks of the destination put
    around what is formatted**; a destination without marks shows its text alone. -/
theorem wrapped_of_parse (h : parse R source = .ok ns)
    (hnames : ∀ t ∈ Lexeme.tags (Lexeme.scan source.toList), t.name ∈ Lexeme.formatNames) :
    Node.plainText ns = Lexeme.untagged (Lexeme.scan source.toList) ∧
      ∀ (registry : Registry) (target : String) (site : Site) (usernames : Usernames)
        (flags : List String), registry.get? target = some site →
          ∃ shown, render registry usernames flags ns target = .ok ⟨shown, []⟩ ∧
            Lexeme.Wrapped site.dialect (Lexeme.scan source.toList) shown ∧
            ((∀ kind, site.dialect.marks? kind = none) →
              shown = Lexeme.untagged (Lexeme.scan source.toList)) := by
  have hlexemes : (Token.ofSource source).map (·.lexeme) = Lexeme.scan source.toList :=
    Token.map_lexeme_place ..
  have hshows (ctx : RenderContext) : Shows ctx (.nodes .block ns) (Token.ofSource source) :=
    shows_of_derives ctx (ofTokens_eq_ok_iff.1 h) (hlexemes.symm ▸ hnames)
  simp only [Shows, hlexemes] at hshows
  refine ⟨(hshows ⟨R, .furaffinity, [], []⟩).1, fun registry target site usernames flags hs => ?_⟩
  obtain ⟨-, shown, hrender, hwrapped⟩ := hshows ⟨registry, site, usernames, flags⟩
  refine ⟨shown, ?_, hwrapped, hwrapped.eq_untagged⟩
  rw [render, hs]
  exact hrender

/-- White space is formatted without marks, also around more of it. -/
theorem wrapped_of_parse_nested :
    let source := "[i]1[/i][B] [u] [/u][/b]\n[u]2[b]3[/b][/u]"
    ∃ ns, parse .builtin source = .ok ns ∧ Node.plainText ns = "1  \n23" ∧
      render .builtin [] [] ns "weasyl" = .ok ⟨"*1*  \n<u>2**3**</u>", []⟩ ∧
        Lexeme.Wrapped .markdown (Lexeme.scan source.toList) "*1*  \n<u>2**3**</u>" := by
  intro source
  have hnames : ∀ t ∈ Lexeme.tags (Lexeme.scan source.toList), t.name ∈ Lexeme.formatNames := by
    decide +kernel
  have htext : Lexeme.untagged (Lexeme.scan source.toList) = "1  \n23" := by decide +kernel
  have hshown : (parse .builtin source).toOption.map (render .builtin [] [] · "weasyl") =
      some (.ok ⟨"*1*  \n<u>2**3**</u>", []⟩) := by decide +kernel
  obtain ⟨ns, h⟩ : ∃ ns, parse .builtin source = .ok ns := exists_of_isOk (by decide +kernel)
  rw [h] at hshown
  have hrender := Option.some.inj hshown
  obtain ⟨hplain, hsites⟩ := wrapped_of_parse h hnames
  obtain ⟨shown, hrender', hwrapped, -⟩ := hsites .builtin "weasyl" .weasyl [] [] rfl
  cases hrender.symm.trans hrender'
  exact ⟨ns, h, hplain.trans htext, hrender, hwrapped⟩

end Document

end Crosspost
