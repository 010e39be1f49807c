/-
  Written switches, from their source text to what a destination shows.

  * `SwitchTag` is a switch tag as it is written, with what it stands for, and
    `SwitchKind.source` the text of some of them one inside another;
  * `SwitchKind.parse_source`: such a text is read as the switch with the bindings
    `SwitchTag.chain`;
  * `Shows`: what is shown at a destination, case by case;
  * `SwitchKind.render_source`: **every such text is read, and every destination
    shows it so**.
-/
import Crosspost.Description.Rendering
import Crosspost.Proofs.Description.Chains
import Crosspost.Proofs.Description.Lexing
import Crosspost.Proofs.Description.Parsing
import Crosspost.Proofs.Site.Lookup
import Crosspost.Proofs.Text.Trimming

namespace Crosspost

open Grammar

/-! ## Source texts -/

/-- What there is in a text beside the white space at its ends. -/
def content? (text : String) : Option String :=
  if Text.trim text = "" then none else some (Text.trim text)

/-- A switch tag as it is written, and the binding site that it stands for. -/
structure SwitchTag (R : Registry) where
  name : String
  attr : String
  site : BindingSite
  written : Tag.Written ⟨false, name.toList, some attr.toList⟩
  trimmed : Text.Trimmed attr
  names : R.bindingSite? (Text.lower name) = some site

/-- The text between brackets of no tag. -/
def Unbracketed (text : String) : Prop := ∀ c ∈ text.toList, Tag.isAttrChar c = true

namespace SwitchTag

variable {R : Registry}

/-- Switch tags one inside another, with a text in the innermost one. -/
def nest : List (SwitchTag R) → String → String
  | [], text => text
  | t :: ts, text => "[" ++ t.name ++ "=" ++ t.attr ++ "]" ++ nest ts text ++ "[/" ++ t.name ++ "]"

/-- The opening tag. -/
def opening (t : SwitchTag R) : Tag := ⟨false, t.name.toList, some t.attr.toList⟩

/-- The closing tag. -/
def closing (t : SwitchTag R) : Tag := ⟨true, t.name.toList, none⟩

/-- The binding of a tag, with the text that it shows. -/
def binding (t : SwitchTag R) (display : Option (List Node)) : Binding String (List Node) :=
  ⟨t.site, t.attr, display⟩

/-- The bindings of tags one inside another, with a text in the innermost one. -/
def chain (outer : List (SwitchTag R)) (inner : SwitchTag R) (text : String) :
    Chain String (List Node) :=
  outer.map (·.binding none) ++ [inner.binding ((content? text).map fun s => [.text s])]

/-- The lexemes of tags one inside another. -/
def lexemes : List (SwitchTag R) → String → List Lexeme
  | [], text => if text = "" then [] else [.text text.toList]
  | t :: ts, text => .tag t.opening :: (lexemes ts text ++ [.tag t.closing])

end SwitchTag

namespace SwitchKind

variable {R : Registry}

/-- The text of a switch: its wrapper and the tags in it. -/
def source (kind : SwitchKind) (tags : List (SwitchTag R)) (text : String) : String :=
  "[" ++ kind.name ++ "]" ++ SwitchTag.nest tags text ++ "[/" ++ kind.name ++ "]"

/-- The opening tag of a wrapper. -/
def opening (kind : SwitchKind) : Tag := ⟨false, kind.name.toList, none⟩

/-- The closing tag of a wrapper. -/
def closing (kind : SwitchKind) : Tag := ⟨true, kind.name.toList, none⟩

/-- The lexemes of a switch. -/
def lexemes (kind : SwitchKind) (tags : List (SwitchTag R)) (text : String) : List Lexeme :=
  .tag kind.opening :: (SwitchTag.lexemes tags text ++ [.tag kind.closing])

end SwitchKind

/-! ## Lexemes -/

theorem Tag.Written.closed {cs : List Char} {a b : Option (List Char)}
    (h : Tag.Written ⟨false, cs, a⟩) (hb : b = none) : Tag.Written ⟨true, cs, b⟩ :=
  ⟨h.name_start, h.name_ne_nil, h.name, by simp [hb]⟩

theorem Lexeme.Apart.append_tag {ls : List Lexeme} (h : Lexeme.Apart ls) (t : Tag) :
    Lexeme.Apart (ls ++ [.tag t]) := by
  refine ⟨by simpa using h.nonempty, List.isChain_append.2 ⟨h.separate, .singleton _, ?_⟩⟩
  intro a _ b hb
  cases hb
  simp [Lexeme.isText]

namespace SwitchTag

variable {R : Registry}

theorem flatMap_lexemes (ts : List (SwitchTag R)) (text : String) :
    (lexemes ts text).flatMap Lexeme.chars = (nest ts text).toList := by
  induction ts with
  | nil => by_cases h : text = "" <;> simp [lexemes, nest, h, Lexeme.chars]
  | cons t ts ih =>
    simp [lexemes, nest, ih, Lexeme.chars, Tag.chars, opening, closing]

theorem written_lexemes (ts : List (SwitchTag R)) {text : String} (h : Unbracketed text) :
    ∀ l ∈ lexemes ts text, l.Written := by
  induction ts with
  | nil =>
    rw [lexemes]
    split_ifs
    · simp
    · rintro _ (_ | ⟨_, ⟨⟩⟩) hb
      exact absurd (h '[' hb) (by decide)
  | cons t ts ih =>
    rw [lexemes]
    simp only [List.mem_cons, List.mem_append, List.not_mem_nil, or_false]
    rintro _ (rfl | h | rfl)
    · exact t.written
    · exact ih _ h
    · exact t.written.closed rfl

theorem apart_lexemes (ts : List (SwitchTag R)) (text : String) : Lexeme.Apart (lexemes ts text) := by
  induction ts with
  | nil =>
    rw [lexemes]
    split_ifs with h
    · exact Lexeme.apart_nil
    · exact ⟨by simpa using h, .singleton _⟩
  | cons t ts ih => exact (ih.append_tag _).cons_tag

end SwitchTag

namespace SwitchKind

variable {R : Registry}

theorem written_opening (kind : SwitchKind) : kind.opening.Written := by
  cases kind <;> decide

theorem map_lexeme_source (kind : SwitchKind) (tags : List (SwitchTag R)) {text : String}
    (h : Unbracketed text) :
    (Token.ofSource (kind.source tags text)).map (·.lexeme) = kind.lexemes tags text := by
  have hchars : (kind.source tags text).toList = (kind.lexemes tags text).flatMap Lexeme.chars := by
    simp [source, lexemes, SwitchTag.flatMap_lexemes, Lexeme.chars, Tag.chars, opening, closing]
  have hwritten : ∀ l ∈ kind.lexemes tags text, l.Written := by
    simp only [lexemes, List.mem_cons, List.mem_append, List.not_mem_nil, or_false]
    rintro _ (rfl | hl | rfl)
    · exact kind.written_opening
    · exact SwitchTag.written_lexemes tags h _ hl
    · exact kind.written_opening.closed rfl
  rw [Token.ofSource, Token.map_lexeme_place, hchars]
  exact Lexeme.scan_flatMap hwritten ((SwitchTag.apart_lexemes tags text).append_tag _).cons_tag

end SwitchKind

/-! ## Trees -/

/-- Tokens whose lexemes are those of a tag, of some content and of a closing tag. -/
theorem tokens_of_tagged {o c : Tag} {ls : List Lexeme} {ts : List Token}
    (h : ts.map (·.lexeme) = .tag o :: (ls ++ [.tag c])) :
    ∃ p q body, ts = OpenTag.token ⟨o, p⟩ :: (body ++ [⟨.tag c, q⟩]) ∧ body.map (·.lexeme) = ls := by
  obtain ⟨⟨_, p⟩, rest, rfl, rfl, hrest⟩ := List.map_eq_cons_iff.1 h
  obtain ⟨body, last, rfl, hbody, hlast⟩ := List.map_eq_append_iff.1 hrest
  obtain ⟨⟨_, q⟩, after, rfl, rfl, hafter⟩ := List.map_eq_cons_iff.1 hlast
  rw [List.map_eq_nil_iff.1 hafter]
  exact ⟨p, q, body, rfl, hbody⟩

theorem Node.trimEnds_text {text : String} (h : Text.trim text ≠ "") :
    Node.trimEnds [.text text] = [.text (Text.trim text)] := by
  have he : Node.trimEnds [.text text] = [.text (Text.trimEnd (Text.trimStart text))].filter
      (!·.isEmptyText) := rfl
  rw [he, Text.trimEnd_trimStart]
  simp [Node.isEmptyText, h]

namespace SwitchTag

variable {R : Registry}

theorem opensSwitch (t : SwitchTag R) (p : Position) : OpensSwitch R ⟨t.opening, p⟩ t.site :=
  ⟨rfl, t.names⟩

theorem value?_opening (t : SwitchTag R) : t.opening.value? = some t.attr := by
  have ha : t.opening.attr = some t.attr := by
    have htrim : String.ofList (Chars.trim t.attr.toList) = Text.trim t.attr := rfl
    rw [Tag.attr, opening, Option.map_some, htrim, t.trimmed.2]
  rw [Tag.value?, ha]
  simp [t.trimmed.1]

theorem closes (t : SwitchTag R) (p q : Position) : Closes ⟨t.opening, p⟩ ⟨.tag t.closing, q⟩ :=
  ⟨_, rfl, rfl, rfl, rfl⟩

/-- The content of the innermost tag is its text, or nothing. -/
theorem derives_text {text : String} {body : List Token}
    (h : body.map (·.lexeme) = lexemes ([] : List (SwitchTag R)) text) :
    ∃ ns, Derives R (.nodes .inline ns) body ∧ textOf ns = Text.trim text ∧
      (Text.trim text ≠ "" → Node.trimEnds ns = [.text (Text.trim text)]) := by
  rw [lexemes] at h
  split_ifs at h with ht
  · obtain rfl := List.map_eq_nil_iff.1 h
    subst ht
    exact ⟨[], .nil, rfl, fun hne => absurd (by rfl) hne⟩
  · obtain ⟨⟨_, p⟩, rest, rfl, rfl, hrest⟩ := List.map_eq_cons_iff.1 h
    obtain rfl := List.map_eq_nil_iff.1 hrest
    refine ⟨[.text text], ?_, by simp [textOf, Node.plainText, Node.plain], Node.trimEnds_text⟩
    have hd : Derives R (.node .inline (.text (.ofList text.toList))) [⟨.text text.toList, p⟩] :=
      .text
    rw [String.ofList_toList] at hd
    exact .cons hd .nil

/-- A text does not start with a switch tag. -/
theorem not_opensSwitch_of_text {text : String} {body : List Token}
    (h : body.map (·.lexeme) = lexemes ([] : List (SwitchTag R)) text) (i : OpenTag)
    (site : BindingSite) (hi : body.head? = some i.token) : ¬ OpensSwitch R i site := by
  obtain ⟨rest, rfl⟩ := List.head?_eq_some_iff.1 hi
  rw [lexemes] at h
  split_ifs at h <;> simp [OpenTag.token] at h

theorem leaf (t : SwitchTag R) (p : Position) {ns : List Node} {text : String}
    (ht : textOf ns = Text.trim text)
    (hns : Text.trim text ≠ "" → Node.trimEnds ns = [.text (Text.trim text)]) :
    Leaf ⟨t.opening, p⟩ t.site ns (t.binding ((content? text).map fun s => [.text s])) := by
  rw [content?]
  split_ifs with h
  · exact .bare t.value?_opening (ht.trans h)
  · rw [Option.map_some, ← hns h]
    exact .shown t.value?_opening fun he => h (ht ▸ he)

/-- What is no generic tag stands for a registered site. -/
theorem exists_owner (t : SwitchTag R) (h : t.site ≠ .generic) :
    ∃ owner ∈ R.sites, t.site = .site owner.id := by
  obtain ⟨id, hs⟩ : ∃ id, t.site = .site id := by
    cases hs : t.site with
    | generic => exact absurd hs h
    | site id => exact ⟨id, rfl⟩
  obtain ⟨owner, hget⟩ := Registry.get?_of_bindingSite? (hs ▸ t.names)
  obtain ⟨hm, rfl⟩ := Registry.get?_eq_some_iff.1 hget
  exact ⟨owner, hm, hs⟩

/-- The rule of a site has nothing against the name in a tag. -/
def Accepted (kind : SwitchKind) (t : SwitchTag R) : Prop :=
  kind = .user → ∀ s ∈ R.sites, t.site = .site s.id → s.checkUsername t.attr = none

theorem admits {kind : SwitchKind} {above : Chain String (List Node)} {t : SwitchTag R}
    (hfresh : ∀ b ∈ above, b.site ≠ t.site) (ha : t.Accepted kind) :
    Admits R kind above t.site t.attr := by
  refine ⟨hfresh, fun hk id hid s hs => ?_⟩
  obtain ⟨hm, rfl⟩ := Registry.get?_eq_some_iff.1 hs
  exact ha hk s hm hid

/-- Tags one inside another spell their bindings, inside the bindings `above`. -/
theorem derives_chain {kind : SwitchKind} {inner : SwitchTag R} {text : String}
    {outer : List (SwitchTag R)} {above : Chain String (List Node)} {ts : List Token}
    (h : ts.map (·.lexeme) = lexemes (outer ++ [inner]) text)
    (hd : ((outer ++ [inner]).map (·.site)).Nodup)
    (hfresh : ∀ t ∈ outer ++ [inner], ∀ b ∈ above, b.site ≠ t.site)
    (ha : ∀ t ∈ outer ++ [inner], t.Accepted kind) :
    Derives R (.chain kind above (chain outer inner text)) ts := by
  -- from the outside in: every tag joins the bindings above the ones inside it
  induction outer generalizing above ts with
  | nil =>
    obtain ⟨p, q, body, rfl, hbody⟩ := tokens_of_tagged h
    obtain ⟨ns, hns, ht, hshown⟩ := derives_text hbody
    exact .leaf (inner.opensSwitch p) (not_opensSwitch_of_text hbody) hns (inner.closes p q)
      (inner.leaf p ht hshown) (admits (hfresh inner (by simp)) (ha inner (by simp)))
  | cons t outer ih =>
    obtain ⟨p, q, body, rfl, hbody⟩ := tokens_of_tagged h
    rw [List.cons_append, List.map_cons, List.nodup_cons] at hd
    have hrest : Derives R (.chain kind (above ++ [t.binding none]) (chain outer inner text)) body := by
      refine ih hbody hd.2 (fun u hu b hb => ?_) fun u hu => ha u (List.mem_cons_of_mem _ hu)
      obtain hb | hb := List.mem_append.1 hb
      · exact hfresh u (List.mem_cons_of_mem _ hu) b hb
      · obtain rfl := List.mem_singleton.1 hb
        exact fun he => hd.1 (List.mem_map.2 ⟨u, hu, he.symm⟩)
    exact .nested (t.opensSwitch p) t.value?_opening
      (admits (hfresh t List.mem_cons_self) (ha t List.mem_cons_self)) hrest (t.closes p q)

end SwitchTag

namespace SwitchKind

variable {R : Registry}

theorem name_opening (kind : SwitchKind) : kind.opening.name = kind.name := by
  cases kind <;> decide

theorem opens (kind : SwitchKind) (p : Position) : Opens ⟨kind.opening, p⟩ kind.name :=
  ⟨rfl, kind.name_opening⟩

theorem closes (kind : SwitchKind) (p q : Position) :
    Closes ⟨kind.opening, p⟩ ⟨.tag kind.closing, q⟩ :=
  ⟨_, rfl, rfl, rfl, rfl⟩

/-- The wrapper stands at the start of its text. -/
theorem parse_source {kind : SwitchKind} {outer : List (SwitchTag R)} {inner : SwitchTag R}
    {text : String} (ht : Unbracketed text) (hd : ((outer ++ [inner]).map (·.site)).Nodup)
    (ha : ∀ t ∈ outer ++ [inner], t.Accepted kind) :
    Document.parse R (kind.source (outer ++ [inner]) text) =
      .ok [.switch kind (SwitchTag.chain outer inner text) ⟨0, 1, 1⟩] := by
  have hmap := map_lexeme_source kind (outer ++ [inner]) ht
  obtain ⟨p, q, body, hts, hbody⟩ := tokens_of_tagged hmap
  -- the first token stands where the text starts
  have hp : p = ⟨0, 1, 1⟩ := by
    rw [Token.ofSource] at hts
    cases hscan : Lexeme.scan (kind.source (outer ++ [inner]) text).toList with
    | nil => simp [hscan, Token.place] at hts
    | cons l ls =>
      rw [hscan, Token.place] at hts
      exact (congrArg Token.position (List.cons.inj hts).1).symm
  have hchain : Derives R (.chain kind [] (SwitchTag.chain outer inner text)) body :=
    SwitchTag.derives_chain hbody hd (by simp) ha
  have hnode := Derives.wrapper (kind.opens p) rfl hchain (kind.closes p q)
  rw [hp] at hts hnode
  rw [Document.parse, hts, Document.ofTokens_eq_ok_iff]
  simpa using Derives.cons hnode .nil

end SwitchKind

/-! ## What a destination shows -/

/-- The account of a user of `owner` as a destination shows it: with a text that is
    given, else as its mention of the account, else with the user's name. -/
def Site.accountText (target owner : Site) (name : String) (label : Option String) : String :=
  match label with
  | some label => target.dialect.link (owner.profileUrl name) label
  | none =>
    (target.mention owner.toOwner name).getD (target.dialect.link (owner.profileUrl name) name)

/-- The text that the innermost tag gives for every site; a generic tag gives none. -/
def SwitchTag.label? {R : Registry} (inner : SwitchTag R) (text : String) : Option String :=
  if inner.site = .generic then none else content? text

/-- What is shown at a destination for some tags one inside another. -/
structure Shows {R : Registry} (kind : SwitchKind) (outer : List (SwitchTag R))
    (inner : SwitchTag R) (text : String) (target : Site) (out : Rendered) : Prop where
  /-- A tag names the destination. -/
  exact : ∀ t ∈ outer ++ [inner], t.site = .site target.id →
    out = .ok (.ofText (match kind with
      | .user => target.accountText target t.attr (inner.label? text)
      | .siteurl => target.dialect.link t.attr ((inner.label? text).getD "")))
  /-- No tag does, and one around the innermost is generic. -/
  generic : (∀ t ∈ outer ++ [inner], t.site ≠ .site target.id) →
    ∀ t ∈ outer, t.site = .generic →
      out = .ok (.ofText (target.dialect.link t.attr ((inner.label? text).getD "")))
  /-- No tag does, and the innermost one is generic: its text is for its address. -/
  genericInner : (∀ t ∈ outer ++ [inner], t.site ≠ .site target.id) → inner.site = .generic →
    out = .ok (.ofText (target.dialect.link inner.attr (Text.trim text)))
  /-- User names for other sites only. -/
  innermost : kind = .user → (∀ t ∈ outer ++ [inner], t.site ≠ .site target.id) →
    (∀ t ∈ outer ++ [inner], t.site ≠ .generic) →
    ∃ owner ∈ R.sites, inner.site = .site owner.id ∧
      out = .ok (.ofText (target.accountText owner inner.attr (inner.label? text)))
  /-- Addresses for other sites only. -/
  silent : kind = .siteurl → (∀ t ∈ outer ++ [inner], t.site ≠ .site target.id) →
    (∀ t ∈ outer ++ [inner], t.site ≠ .generic) →
    out = .ok ⟨"", [⟨.siteurl, target.id, ⟨0, 1, 1⟩⟩]⟩

/-- A text that is shown. -/
def Rendered.ofText (s : String) : Rendered := .ok (.ofText s)

theorem Rendered.getD_map_ofText (label : Option String) :
    (label.map Rendered.ofText).getD (.ok .empty) = .ofText (label.getD "") := by
  cases label <;> rfl

@[simp] theorem Account.text_own (name : String) : Account.text (.own name) = name := by
  simp [Account.text, Account.points]

theorem content?_getD (text : String) : (content? text).getD "" = Text.trim text := by
  rw [content?]
  split_ifs with h
  · exact h.symm
  · rfl

theorem Node.renderAll_singleton (ctx : RenderContext) (n : Node) :
    renderAll ctx [n] = n.render ctx := by
  rw [renderAll, renderAll]
  cases n.render ctx <;> simp [Except.map, Fragment.append, Fragment.empty]

theorem Node.renderChain_eq_map (ctx : RenderContext) (bs : Chain String (List Node)) :
    renderChain ctx bs = bs.map (renderBinding ctx) := by
  induction bs with
  | nil => rfl
  | cons b bs ih => rw [renderChain, ih, List.map_cons]

namespace SwitchTag

variable {R : Registry}

/-- The binding of a tag, with the text that it shows written. -/
def writtenBinding (t : SwitchTag R) (display : Option String) : Binding Account Rendered :=
  ⟨t.site, .own t.attr, display.map Rendered.ofText⟩

/-- The bindings of tags one inside another, with the text of the innermost one written. -/
def writtenChain (outer : List (SwitchTag R)) (inner : SwitchTag R) (text : String) :
    Chain Account Rendered :=
  outer.map (·.writtenBinding none) ++ [inner.writtenBinding (content? text)]

theorem renderChain_chain (ctx : RenderContext) (outer : List (SwitchTag R))
    (inner : SwitchTag R) (text : String) :
    Node.renderChain ctx (chain outer inner text) = writtenChain outer inner text := by
  have hnone : ∀ t : SwitchTag R, Node.renderBinding ctx (t.binding none) = t.writtenBinding none :=
    fun _ => rfl
  have hsome : ∀ display : Option String,
      Node.renderBinding ctx (inner.binding (display.map fun s => [.text s])) =
        inner.writtenBinding display := by
    rintro (_ | s)
    · rfl
    · simp [binding, writtenBinding, Node.renderBinding, Node.renderOption,
        Node.renderAll_singleton, Node.render, Rendered.ofText]
  rw [Node.renderChain_eq_map, chain, List.map_append, List.map_map, List.map_singleton, hsome]
  simp only [Function.comp_def, hnone]
  rfl

theorem map_site_writtenChain (outer : List (SwitchTag R)) (inner : SwitchTag R) (text : String) :
    (writtenChain outer inner text).map (·.site) = (outer ++ [inner]).map (·.site) := by
  simp [writtenChain, writtenBinding, Function.comp_def]

theorem override?_writtenChain (outer : List (SwitchTag R)) (inner : SwitchTag R) (text : String) :
    (writtenChain outer inner text).override? = (inner.label? text).map Rendered.ofText := by
  have ho : ∀ b ∈ outer.map (·.writtenBinding none), b.display = none := by
    simp [writtenBinding]
  rw [writtenChain, Chain.override?_concat ho, label?]
  by_cases h : inner.site = .generic <;> simp [writtenBinding, h]

/-- Every tag has a binding in the chain, which shows no text unless it is the innermost. -/
theorem exists_mem_writtenChain {outer : List (SwitchTag R)} {inner t : SwitchTag R} (text : String)
    (h : t ∈ outer ++ [inner]) :
    ∃ b ∈ writtenChain outer inner text, b.site = t.site ∧ b.attr = .own t.attr := by
  obtain h | h := List.mem_append.1 h
  · exact ⟨t.writtenBinding none, by simpa [writtenChain] using .inl ⟨t, h, rfl⟩, rfl, rfl⟩
  · obtain rfl := List.mem_singleton.1 h
    exact ⟨t.writtenBinding (content? text), by simp [writtenChain], rfl, rfl⟩

theorem forall_site_writtenChain {outer : List (SwitchTag R)} {inner : SwitchTag R} {text : String}
    {site : BindingSite} (h : ∀ t ∈ outer ++ [inner], t.site ≠ site) :
    ∀ b ∈ writtenChain outer inner text, b.site ≠ site := by
  intro b hb
  have hm := List.mem_map_of_mem (f := (·.site)) hb
  rw [map_site_writtenChain] at hm
  obtain ⟨t, ht, hs⟩ := List.mem_map.1 hm
  exact hs ▸ h t ht

end SwitchTag

namespace RenderContext

theorem link_ofText (ctx : RenderContext) (url label : String) :
    ctx.link url (.ofText label) = .ofText (ctx.site.dialect.link url label) := rfl

/-- An account of a registered site. -/
theorem account_eq {ctx : RenderContext} {r : Resolution Account Rendered} {owner : Site}
    {name : String} {label : Option String} (ho : owner ∈ ctx.registry.sites)
    (hs : r.site = .site owner.id) (ha : r.attr = .own name) (hr : r.rule ≠ .generic)
    (hl : r.label = label.map Rendered.ofText) :
    ctx.account r = .ofText (ctx.site.accountText owner name label) := by
  have hshown : shown r = .ofText (label.getD name) := by
    rw [shown, Resolution.display, hl, if_neg hr, ha]
    cases label <;> simp [Rendered.ofText]
  rw [account, hs]
  simp only [Registry.get?_of_mem ho, hl, ha, hshown]
  cases label with
  | some s => rfl
  | none =>
    rw [Site.accountText]
    cases hm : ctx.site.mention owner.toOwner name with
    | none => simp [Account.points, hm, profile, link_ofText, bind, Except.bind]
    | some text => simp [Account.points, hm, Rendered.ofText]

variable {ctx : RenderContext} {kind : SwitchKind} {chain : Chain Account Rendered}
  {position : Position} {b : Binding Account Rendered} {name : String} {label : Option String}

theorem switch_exact (hc : (chain.map (·.site)).Nodup) (hb : b ∈ chain)
    (hs : b.site = .site ctx.site.id) (hsite : ctx.site ∈ ctx.registry.sites)
    (hid : ctx.site.id ≠ "generic") (ha : b.attr = .own name)
    (hl : chain.override? = label.map Rendered.ofText) :
    ctx.switch kind chain position = .ofText (match kind with
      | .user => ctx.site.accountText ctx.site name label
      | .siteurl => ctx.site.dialect.link name (label.getD "")) := by
  have hof : b.site = .ofId ctx.site.id := by rw [hs, BindingSite.ofId, if_neg hid]
  rw [switch, Chain.resolve_exact hc hb hof, hs, hl, ha]
  cases kind with
  | user => exact account_eq hsite rfl rfl (by simp) rfl
  | siteurl =>
    change ctx.link _ _ = _
    rw [Rendered.getD_map_ofText, Account.text_own, link_ofText]

theorem switch_generic (hc : (chain.map (·.site)).Nodup)
    (ht : ∀ b ∈ chain, b.site ≠ .ofId ctx.site.id) (hb : b ∈ chain) (hs : b.site = .generic)
    (ha : b.attr = .own name) (hl : b.display.or chain.override? = label.map Rendered.ofText) :
    ctx.switch kind chain position = .ofText (ctx.site.dialect.link name (label.getD "")) := by
  rw [switch, Chain.resolve_generic hc ht hb hs, hl, ha]
  change ctx.link _ (shown _) = _
  rw [shown, Resolution.display, if_pos rfl, Rendered.getD_map_ofText, Account.text_own, link_ofText]

theorem switch_innermost {outer : Chain Account Rendered} {owner : Site}
    (ht : ∀ a ∈ outer ++ [b], a.site ≠ .ofId ctx.site.id)
    (hg : ∀ a ∈ outer ++ [b], a.site ≠ .generic) (ho : owner ∈ ctx.registry.sites)
    (hs : b.site = .site owner.id) (ha : b.attr = .own name)
    (hl : Chain.override? (outer ++ [b]) = label.map Rendered.ofText) :
    ctx.switch .user (outer ++ [b]) position = .ofText (ctx.site.accountText owner name label) := by
  rw [switch, Chain.resolve_innermost ht hg, hs, hl, ha]
  exact account_eq ho rfl rfl (by simp) rfl

theorem switch_none (ht : ∀ b ∈ chain, b.site ≠ .ofId ctx.site.id)
    (hg : ∀ b ∈ chain, b.site ≠ .generic) :
    ctx.switch .siteurl chain position = .ok ⟨"", [⟨.siteurl, ctx.site.id, position⟩]⟩ := by
  rw [switch, Chain.resolve_eq_none ht hg, gap]

end RenderContext

namespace SwitchKind

variable {R : Registry}

/-- A switch shows what its tags ask for. -/
theorem shows_switch {kind : SwitchKind} {outer : List (SwitchTag R)} {inner : SwitchTag R}
    {text : String} {ctx : RenderContext} (hreg : ctx.registry = R) (hsite : ctx.site ∈ R.sites)
    (hid : ∀ s ∈ R.sites, s.id ≠ "generic") (hd : ((outer ++ [inner]).map (·.site)).Nodup) :
    Shows kind outer inner text ctx.site
      (ctx.switch kind (SwitchTag.writtenChain outer inner text) ⟨0, 1, 1⟩) := by
  subst hreg
  have hc : ((SwitchTag.writtenChain outer inner text).map (·.site)).Nodup := by
    rwa [SwitchTag.map_site_writtenChain]
  have hl := SwitchTag.override?_writtenChain outer inner text
  have hof : BindingSite.ofId ctx.site.id = .site ctx.site.id := if_neg (hid _ hsite)
  constructor
  case exact =>
    intro t ht hs
    obtain ⟨b, hb, hbs, ha⟩ := SwitchTag.exists_mem_writtenChain text ht
    exact RenderContext.switch_exact hc hb (hbs.trans hs) hsite (hid _ hsite) ha hl
  case generic =>
    intro hne t ht hs
    have hb : t.writtenBinding none ∈ SwitchTag.writtenChain outer inner text := by
      simpa [SwitchTag.writtenChain] using .inl ⟨t, ht, rfl⟩
    exact RenderContext.switch_generic hc (hof ▸ SwitchTag.forall_site_writtenChain hne) hb hs rfl hl
  case genericInner =>
    intro hne hs
    have hb : inner.writtenBinding (content? text) ∈ SwitchTag.writtenChain outer inner text := by
      simp [SwitchTag.writtenChain]
    have hown : (inner.writtenBinding (content? text)).display.or
        (SwitchTag.writtenChain outer inner text).override? =
          (content? text).map Rendered.ofText := by
      rw [hl, SwitchTag.label?, if_pos hs, Option.map_none, Option.or_none]
      rfl
    rw [← content?_getD]
    exact RenderContext.switch_generic hc (hof ▸ SwitchTag.forall_site_writtenChain hne) hb hs rfl
      hown
  case innermost =>
    rintro rfl hne hg
    obtain ⟨owner, ho, hs⟩ := inner.exists_owner (hg inner (by simp))
    exact ⟨owner, ho, hs, RenderContext.switch_innermost
      (hof ▸ SwitchTag.forall_site_writtenChain hne) (SwitchTag.forall_site_writtenChain hg) ho hs
      rfl hl⟩
  case silent =>
    rintro rfl hne hg
    exact RenderContext.switch_none (hof ▸ SwitchTag.forall_site_writtenChain hne)
      (SwitchTag.forall_site_writtenChain hg)

/-- **A switch of well-formed tags for different sites is read, and every
    destination shows it as its tags ask for.** -/
theorem render_source (hid : ∀ s ∈ R.sites, s.id ≠ "generic") {kind : SwitchKind}
    {outer : List (SwitchTag R)} {inner : SwitchTag R} {text : String} (ht : Unbracketed text)
    (hd : ((outer ++ [inner]).map (·.site)).Nodup) (ha : ∀ t ∈ outer ++ [inner], t.Accepted kind) :
    ∃ ns, Document.parse R (kind.source (outer ++ [inner]) text) = .ok ns ∧
      ∀ target ∈ R.sites, ∀ usernames flags, Shows kind outer inner text target
        (Document.render R usernames flags ns target.id) := by
  refine ⟨_, parse_source ht hd ha, fun target htarget usernames flags => ?_⟩
  rw [Document.render, Registry.get?_of_mem htarget]
  let ctx : RenderContext := ⟨R, target, usernames, flags⟩
  change Shows kind outer inner text target (Node.renderAll ctx _)
  rw [Node.renderAll_singleton, Node.render, SwitchTag.renderChain_chain]
  have hreg : ctx.registry = R := rfl
  exact shows_switch hreg htarget hid hd

theorem render_source_user :
    ∃ (outer : List (SwitchTag .builtin)) (inner : SwitchTag .builtin) (ns : List Node),
      user.source (outer ++ [inner]) " c " = "[user][generic=a][FA=b] c [/FA][/generic][/user]" ∧
      Document.parse .builtin (user.source (outer ++ [inner]) " c ") = .ok ns ∧
      ∀ target ∈ Registry.builtin.sites, ∀ usernames flags, Shows .user outer inner " c " target
        (Document.render .builtin usernames flags ns target.id) := by
  let generic : SwitchTag .builtin :=
    ⟨"generic", "a", .generic, by decide, ⟨by decide, by decide⟩, by decide⟩
  let fa : SwitchTag .builtin :=
    ⟨"FA", "b", .site "furaffinity", by decide, ⟨by decide, by decide⟩, by decide⟩
  have hid : ∀ s ∈ Registry.builtin.sites, s.id ≠ "generic" := by decide
  have ht : Unbracketed " c " := List.all_eq_true.1 (by decide)
  have hd : (([generic] ++ [fa]).map (·.site)).Nodup := by decide
  have ha : ∀ t ∈ [generic] ++ [fa], t.Accepted .user := by
    rintro _ (_ | ⟨_, _ | ⟨_, ⟨⟩⟩⟩) -
    · rintro s - ⟨⟩
    · decide
  obtain ⟨ns, hparse, hrender⟩ := render_source hid ht hd ha
  exact ⟨[generic], fa, ns, by decide +kernel, hparse, hrender⟩

end SwitchKind

end Crosspost
