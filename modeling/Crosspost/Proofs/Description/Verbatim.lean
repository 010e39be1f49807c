/-
  Canonical sources, and the destinations that read the same tags.

  * `Lexeme.Canonical alone ls`: formatting and links only, in the one way in which they are
    shown, and none of them around nothing that is shown; what a link without an address in
    its tag encloses satisfies `alone`;
  * `Grammar.written`: the text that tokens are written as;
  * `Document.render_canonical`: **a destination that reads these tags shows a canonical
    source as it is written**, and there are no gaps.

  A link without an address in its tag is shown as a plain address, so nothing but that
  address can stand in it (`Document.not_render_canonical_of_marked_address`).
-/
import Mathlib.Tactic.MkIffOfInductiveProp
import Crosspost.Description.Rendering
import Crosspost.Proofs.Description.Elements
import Crosspost.Proofs.Description.Parsing
import Crosspost.Proofs.Description.Segmentation

namespace Crosspost

open Grammar

/-! ## Canonical lexemes -/

namespace Lexeme

/-- The names of the tags of formatting and links. -/
def markupNames : List String := ["b", "i", "u", "url"]

/-- Formatting and links in the one way in which they are shown. What a link without an
    address in its tag encloses satisfies `alone`. -/
@[mk_iff]
structure Canonical (alone : List Lexeme → Prop) (ls : List Lexeme) : Prop where
  name : ∀ t ∈ tags ls, t.name ∈ markupNames
  lower : ∀ t ∈ tags ls, t.writtenName = t.name.toList
  attr : ∀ t ∈ tags ls, ∀ cs ∈ t.writtenAttr, cs ≠ [] ∧ Chars.trim cs = cs
  format : ∀ e ∈ elements ls, e.1.name ≠ "url" → e.2.any isShown ∨ e.2.any isLink
  link : ∀ e ∈ elements ls, e.1.name = "url" → e.1.attr.isSome → e.2.any isShown
  address : ∀ e ∈ elements ls, e.1.name = "url" → e.1.attr = none → alone e.2

instance (alone : List Lexeme → Prop) [DecidablePred alone] (ls : List Lexeme) :
    Decidable (Canonical alone ls) :=
  decidable_of_iff _ (canonical_iff alone ls).symm

theorem Canonical.of_part {alone : List Lexeme → Prop} {part ls : List Lexeme}
    (h : Canonical alone ls) (hp : part <:+: ls) : Canonical alone part := by
  have htags : ∀ t ∈ tags part, t ∈ tags ls := fun t ht =>
    mem_tags.2 (hp.subset (mem_tags.1 ht))
  have helements : ∀ e ∈ elements part, e ∈ elements ls := fun e he =>
    mem_elements.2 ((mem_elements.1 he).of_part hp)
  exact ⟨fun t ht => h.name t (htags t ht), fun t ht => h.lower t (htags t ht),
    fun t ht => h.attr t (htags t ht), fun e he => h.format e (helements e he),
    fun e he => h.link e (helements e he), fun e he => h.address e (helements e he)⟩

end Lexeme

/-! ## Written tags and marks -/

namespace Tag

variable {t : Tag}

/-- A tag without attribute whose name is written in lower case. -/
theorem raw_of_attr_eq_none (hn : t.writtenName = t.name.toList) (ha : t.attr = none) :
    t.raw = "[" ++ (if t.closing then "/" else "") ++ t.name ++ "]" := by
  have hattr : t.writtenAttr = none := by simpa [attr] using ha
  apply String.toList_injective
  cases hc : t.closing <;> simp [raw, chars, hn, hattr, hc]

/-- A tag whose name is written in lower case and whose attribute is trimmed. -/
theorem raw_of_attr_eq_some {value : String} (hn : t.writtenName = t.name.toList)
    (htrim : ∀ cs ∈ t.writtenAttr, Chars.trim cs = cs) (ha : t.attr = some value) :
    t.raw = "[" ++ (if t.closing then "/" else "") ++ t.name ++ "=" ++ value ++ "]" := by
  obtain ⟨cs, hcs, rfl⟩ := Option.map_eq_some_iff.1 ha
  apply String.toList_injective
  cases hc : t.closing <;> simp [raw, chars, hn, hcs, hc, htrim cs hcs]

end Tag

namespace Dialect

theorem format_bbcode (kind : FormatKind) {content : String} (h : Text.isBlank content = false) :
    bbcode.format kind content =
      "[" ++ kind.tagName ++ "]" ++ content ++ ("[/" ++ kind.tagName ++ "]") := by
  cases kind <;> simp [format, h, wrap?, bbcode, FormatKind.tagName]

theorem link_bbcode {url label : String} (h : Text.isBlank label = false) :
    bbcode.link url label = "[url=" ++ url ++ "]" ++ label ++ "[/url]" := by
  simp [bbcode, h]

theorem link_bbcode_empty (url : String) : bbcode.link url "" = "[url]" ++ url ++ "[/url]" := rfl

end Dialect

/-! ## Canonical phrases -/

namespace Grammar

/-- The text that some tokens are written as. -/
def written (ts : List Token) : String := .ofList ((ts.map (·.lexeme)).flatMap Lexeme.chars)

@[simp] theorem written_nil : written [] = "" := rfl

@[simp] theorem written_cons (t : Token) (ts : List Token) :
    written (t :: ts) = .ofList t.lexeme.chars ++ written ts := by
  simp [written]

@[simp] theorem written_append (ts us : List Token) :
    written (ts ++ us) = written ts ++ written us := by
  simp [written]

theorem written_ofSource (source : String) : written (Token.ofSource source) = source := by
  rw [written, Token.ofSource, Token.map_lexeme_place, Lexeme.flatMap_scan, String.ofList_toList]

theorem isBlank_written (ts : List Token) :
    Text.isBlank (written ts) = ((ts.map (·.lexeme)).flatMap Lexeme.chars).all isBlank := by
  simp [Text.isBlank, written]

/-- The lexemes of some tokens are canonical. -/
def Canonical (ts : List Token) : Prop :=
  Lexeme.Canonical Lexeme.IsTrimmed (ts.map (·.lexeme))

section
variable {o : OpenTag} {c : Token} {body : List Token}

theorem mem_tags_opening (o : OpenTag) (ts : List Token) :
    o.tag ∈ Lexeme.tags ((o.token :: ts).map (·.lexeme)) :=
  Lexeme.mem_tags.2 (by simp [OpenTag.token])

variable (h : Canonical (o.token :: (body ++ [c])))
include h

/-- Between the tags of a canonical element there is canonical content. -/
theorem Canonical.content : Canonical body :=
  Lexeme.Canonical.of_part h ⟨[o.token.lexeme], [c.lexeme], by simp⟩

theorem Canonical.closing_written (hc : Closes o c) :
    String.ofList c.lexeme.chars = "[/" ++ o.tag.name ++ "]" := by
  obtain ⟨_, p⟩ := c
  obtain ⟨tag, rfl, hclosing, hn, ha⟩ := hc
  have hraw := Tag.raw_of_attr_eq_none (h.lower tag (Lexeme.mem_tags.2 (by simp))) ha
  rw [hclosing, hn] at hraw
  exact hraw

/-- A canonical tag without a value has no attribute. -/
theorem Canonical.attr_eq_none (hv : o.tag.value? = none) : o.tag.attr = none := by
  cases hw : o.tag.writtenAttr with
  | none => simp [Tag.attr, hw]
  | some cs =>
    obtain ⟨hne, htrim⟩ := h.attr o.tag (mem_tags_opening ..) cs hw
    simp [Tag.value?, Tag.attr, hw, htrim, hne] at hv

/-- A canonical element without attribute as it is written. -/
theorem Canonical.written_plain (ho : o.tag.closing = false) (hc : Closes o c)
    (ha : o.tag.attr = none) : written (o.token :: (body ++ [c])) =
      "[" ++ o.tag.name ++ "]" ++ written body ++ ("[/" ++ o.tag.name ++ "]") := by
  have hraw : o.tag.raw = "[" ++ o.tag.name ++ "]" := by
    simpa [ho] using Tag.raw_of_attr_eq_none (h.lower o.tag (mem_tags_opening ..)) ha
  rw [written_cons, written_append, written_cons, written_nil, h.closing_written hc,
    String.append_empty, ← String.append_assoc, ← hraw]
  rfl

/-- A canonical element with an attribute as it is written. -/
theorem Canonical.written_attr {value : String} (ho : o.tag.closing = false) (hc : Closes o c)
    (ha : o.tag.attr = some value) : written (o.token :: (body ++ [c])) =
      "[" ++ o.tag.name ++ "=" ++ value ++ "]" ++ written body ++
        ("[/" ++ o.tag.name ++ "]") := by
  have htrim : ∀ cs ∈ o.tag.writtenAttr, Chars.trim cs = cs := fun cs hcs =>
    (h.attr o.tag (mem_tags_opening ..) cs hcs).2
  have hraw : o.tag.raw = "[" ++ o.tag.name ++ "=" ++ value ++ "]" := by
    simpa [ho] using Tag.raw_of_attr_eq_some (h.lower o.tag (mem_tags_opening ..)) htrim ha
  rw [written_cons, written_append, written_cons, written_nil, h.closing_written hc,
    String.append_empty, ← String.append_assoc, ← hraw]
  rfl

end

/-! ## What is shown of canonical phrases -/

/-- What is shown of a phrase: its tokens as they are written. -/
def Verbatim (ctx : RenderContext) : Phrase → List Token → Prop
  | .node _ n, ts => n.render ctx = .ok (.ofText (written ts))
  | .nodes _ ns, ts => Node.renderAll ctx ns = .ok (.ofText (written ts))
  | .chain .., _ => True

theorem ne_nil_of_derives_node {R : Registry} {mode : Mode} {n : Node} {ts : List Token}
    (h : Derives R (.node mode n) ts) : ts ≠ [] := by
  cases h <;> exact List.cons_ne_nil _ _

theorem eq_nil_of_derives_nil {R : Registry} {mode : Mode} {ns : List Node} {ts : List Token}
    (h : Derives R (.nodes mode ns) ts) (hts : ts = []) : ns = [] := by
  cases h with
  | nil => rfl
  | cons hn _ => exact absurd (List.append_eq_nil_iff.1 hts).1 (ne_nil_of_derives_node hn)

/-- The nodes of a single text. -/
theorem eq_text_of_derives {R : Registry} {mode : Mode} {ns : List Node} {ts : List Token}
    {cs : List Char} (h : Derives R (.nodes mode ns) ts)
    (hts : ts.map (·.lexeme) = [.text cs]) : ns = [.text (.ofList cs)] := by
  cases h with
  | nil => cases hts
  | cons hn hrest =>
    cases hn with
    | text =>
      rw [List.singleton_append, List.map_cons, List.cons.injEq, Lexeme.text.injEq,
        List.map_eq_nil_iff] at hts
      rw [eq_nil_of_derives_nil hrest hts.2, hts.1]
    | _ => cases hts

section
variable {R : Registry} {ctx : RenderContext} {mode : Mode} {o : OpenTag} {ns : List Node}
  {body : List Token} {c : Token}

theorem render_format {kind : FormatKind} (hd : ctx.site.dialect = .bbcode)
    (ho : Opens o kind.tagName) (ha : o.tag.attr = none) (hbody : Derives R (.nodes mode ns) body)
    (hc : Closes o c) (hcan : Canonical (o.token :: (body ++ [c])))
    (hns : Node.renderAll ctx ns = .ok (.ofText (written body))) :
    Node.render ctx (.format kind ns) = .ok (.ofText (written (o.token :: (body ++ [c])))) := by
  have hurl : o.tag.name ≠ "url" := by
    rw [ho.2]
    cases kind <;> decide
  have hshown : Text.isBlank (written body) = false := by
    rw [isBlank_written]
    exact (hcan.format _ (mem_elements_of_closes ho.1 hc hbody) hurl).elim
      Lexeme.not_isBlank_of_isShown Lexeme.not_isBlank_of_isLink
  rw [Node.render, hns, hcan.written_plain ho.1 hc ha, ho.2,
    ← Dialect.format_bbcode kind hshown, ← hd]
  rfl

theorem render_link {url : String} (hd : ctx.site.dialect = .bbcode) (ho : Opens o "url")
    (hv : o.tag.value? = some url) (hbody : Derives R (.nodes mode ns) body) (hc : Closes o c)
    (hcan : Canonical (o.token :: (body ++ [c])))
    (hns : Node.renderAll ctx ns = .ok (.ofText (written body))) :
    Node.render ctx (.link url ns) = .ok (.ofText (written (o.token :: (body ++ [c])))) := by
  have ha : o.tag.attr = some url := (Option.filter_eq_some_iff.1 hv).1
  have hshown : Text.isBlank (written body) = false := by
    rw [isBlank_written]
    exact Lexeme.not_isBlank_of_isShown
      (hcan.link _ (mem_elements_of_closes ho.1 hc hbody) ho.2 (by simp [ha]))
  rw [Node.render, hns, hcan.written_attr ho.1 hc ha, ho.2]
  simp [RenderContext.link, Except.map, Fragment.ofText, Fragment.mapText, hd,
    Dialect.link_bbcode hshown]

theorem render_address (hd : ctx.site.dialect = .bbcode) (ho : Opens o "url")
    (hv : o.tag.value? = none) (hbody : Derives R (.nodes mode ns) body) (hc : Closes o c)
    (hcan : Canonical (o.token :: (body ++ [c]))) :
    Node.render ctx (.link (textOf ns) []) =
      .ok (.ofText (written (o.token :: (body ++ [c])))) := by
  have ha : o.tag.attr = none := hcan.attr_eq_none hv
  obtain ⟨cs, hcs, htrim⟩ : ∃ cs, body.map (·.lexeme) = [.text cs] ∧ Chars.trim cs = cs :=
    (hcan.address _ (mem_elements_of_closes ho.1 hc hbody) ho.2 ha).exists_text
  have htext : textOf ns = .ofList cs := by
    simp [eq_text_of_derives hbody hcs, textOf, Node.plainText, Node.plain, Text.trim, htrim]
  have hwritten : written body = .ofList cs := by
    rw [written, hcs, List.flatMap_singleton, Lexeme.chars]
  rw [Node.render, Node.renderAll, htext, hcan.written_plain ho.1 hc ha, ho.2, hwritten]
  simp [RenderContext.link, Except.map, Fragment.empty, Fragment.ofText, Fragment.mapText, hd,
    Dialect.link_bbcode_empty]

end

/-- **A phrase of canonical tokens is shown as they are written.** -/
theorem verbatim_of_derives {R : Registry} {ctx : RenderContext} (hd : ctx.site.dialect = .bbcode)
    {p : Phrase} {ts : List Token} (h : Derives R p ts) (hcan : Canonical ts) :
    Verbatim ctx p ts := by
  -- no canonical phrase starts with a tag of another name
  have named {o : OpenTag} {us : List Token} (h : Canonical (o.token :: us)) :
      o.tag.name ∈ Lexeme.markupNames :=
    h.name o.tag (mem_tags_opening ..)
  induction h with
  | text => simp [Verbatim, Node.render, written, Lexeme.chars]
  | format ho ha hbody hc ih => exact render_format hd ho ha hbody hc hcan (ih hcan.content)
  | link ho hv hbody hc ih => exact render_link hd ho hv hbody hc hcan (ih hcan.content)
  | address ho hv hbody hc _ _ => exact render_address hd ho hv hbody hc hcan
  | self ho => exact absurd (ho.2 ▸ named hcan) (by decide)
  | @wrapper kind _ _ _ _ ho =>
    refine absurd (ho.2 ▸ named hcan) ?_
    cases kind <;> decide
  | switch hn =>
    have hmarkup : Lexeme.markupNames ⊆ reserved := by decide
    exact absurd (hmarkup (named hcan)) hn
  | whenOnly ho => exact absurd (ho.2 ▸ named hcan) (by decide)
  | whenElse ho => exact absurd (ho.2 ▸ named hcan) (by decide)
  | nil => rfl
  | @cons mode n ns ts us _ _ ih ih' =>
    have hn : n.render ctx = .ok (.ofText (written ts)) :=
      ih (Lexeme.Canonical.of_part hcan ⟨[], us.map (·.lexeme), by simp⟩)
    have hns : Node.renderAll ctx ns = .ok (.ofText (written us)) :=
      ih' (Lexeme.Canonical.of_part hcan ⟨ts.map (·.lexeme), [], by simp⟩)
    rw [Verbatim, Node.renderAll, hn, hns, written_append]
    rfl
  | leaf | nested => trivial

end Grammar

namespace Document

/-- **A destination that reads these tags shows a canonical source as it is written.** -/
theorem render_canonical {R registry : Registry} {source : String} {ns : List Node}
    (h : parse R source = .ok ns)
    (hcan : Lexeme.Canonical Lexeme.IsTrimmed (Lexeme.scan source.toList)) {target : String}
    {site : Site} (hs : registry.get? target = some site) (hd : site.dialect = .bbcode)
    (usernames : Usernames) (flags : List String) :
    render registry usernames flags ns target = .ok ⟨source, []⟩ := by
  have hlexemes : (Token.ofSource source).map (·.lexeme) = Lexeme.scan source.toList :=
    Token.map_lexeme_place ..
  have hshown : Node.renderAll ⟨registry, site, usernames, flags⟩ ns =
      .ok (.ofText (written (Token.ofSource source))) :=
    verbatim_of_derives hd (ofTokens_eq_ok_iff.1 h)
      (show Lexeme.Canonical _ _ from hlexemes ▸ hcan)
  rw [render, hs]
  rwa [written_ofSource] at hshown

/-- A stray bracket, formatting in formatting, and links of both kinds. -/
theorem render_canonical_nested :
    let source := "[[b]1 [i]2[/i][url]x.y[/url][/b]\n[url=z] [u]3[/u][/url]"
    ∃ ns, parse .builtin source = .ok ns ∧
      render .builtin [] [] ns "furaffinity" = .ok ⟨source, []⟩ := by
  intro source
  have hscan : Lexeme.scan source.toList =
      [.text ['['], .tag ⟨false, ['b'], none⟩, .text ['1', ' '], .tag ⟨false, ['i'], none⟩,
        .text ['2'], .tag ⟨true, ['i'], none⟩, .tag ⟨false, ['u', 'r', 'l'], none⟩,
        .text ['x', '.', 'y'], .tag ⟨true, ['u', 'r', 'l'], none⟩, .tag ⟨true, ['b'], none⟩,
        .text ['\n'], .tag ⟨false, ['u', 'r', 'l'], some ['z']⟩, .text [' '],
        .tag ⟨false, ['u'], none⟩, .text ['3'], .tag ⟨true, ['u'], none⟩,
        .tag ⟨true, ['u', 'r', 'l'], none⟩] := by decide +kernel
  have hcan : Lexeme.Canonical Lexeme.IsTrimmed (Lexeme.scan source.toList) := by
    rw [hscan]
    decide +kernel
  have hsite : Registry.builtin.get? "furaffinity" = some .furaffinity := rfl
  obtain ⟨ns, h⟩ : ∃ ns, parse .builtin source = .ok ns := exists_of_isOk (by decide +kernel)
  exact ⟨ns, h, render_canonical h hcan hsite rfl [] []⟩

/-- One text without white space around it may still be formatted, and the formatting of an
    address is not shown. -/
theorem not_render_canonical_of_marked_address :
    ¬ ∀ (R : Registry) (source : String) (ns : List Node), parse R source = .ok ns →
      Lexeme.Canonical (fun body => Lexeme.IsTrimmed (body.filter (·.isText)))
        (Lexeme.scan source.toList) →
      ∀ (target : String) (site : Site), R.get? target = some site → site.dialect = .bbcode →
        ∀ (usernames : Usernames) (flags : List String),
          render R usernames flags ns target = .ok ⟨source, []⟩ := by
  intro h
  let source := "[url][b]x[/b][/url]"
  have hscan : Lexeme.scan source.toList =
      [.tag ⟨false, ['u', 'r', 'l'], none⟩, .tag ⟨false, ['b'], none⟩, .text ['x'],
        .tag ⟨true, ['b'], none⟩, .tag ⟨true, ['u', 'r', 'l'], none⟩] := by decide +kernel
  have hshown : (parse .builtin source).toOption.map (render .builtin [] [] · "furaffinity") =
      some (.ok ⟨"[url]x[/url]", []⟩) := by decide +kernel
  obtain ⟨ns, hparse⟩ : ∃ ns, parse .builtin source = .ok ns := exists_of_isOk (by decide +kernel)
  have hverbatim : render .builtin [] [] ns "furaffinity" = .ok ⟨source, []⟩ :=
    h .builtin source ns hparse (hscan ▸ by decide +kernel) "furaffinity" .furaffinity rfl rfl [] []
  rw [hparse] at hshown
  have hurl : render .builtin [] [] ns "furaffinity" = .ok ⟨"[url]x[/url]", []⟩ :=
    Option.some.inj hshown
  rw [hverbatim] at hurl
  exact absurd hurl (by decide +kernel)

end Document

end Crosspost
