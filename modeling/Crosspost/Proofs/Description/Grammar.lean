/-
  The grammar of descriptions.

  A phrase is a node, a list of nodes or a switch chain, together with its tree.

  * `Grammar.Derives R p ts`: under the registry `R` the tokens `ts` spell the
    phrase `p`, each of them used once. The only look-ahead is in the leaf of a
    chain, whose content does not start with a switch tag;
  * `Grammar.Closes o t`: the token `t` closes the tag `o`;
  * `Grammar.Admits`: a chain takes one more binding, and `Grammar.Leaf`: the
    binding that an innermost switch tag makes of its content;
  * `Derives.not_startsElse`: no list of nodes starts with `[else]`, so nothing
    but a second part can follow the first part of a conditional there.
-/
import Crosspost.Description.Document

namespace Crosspost

/-- The token of an opening tag. -/
def OpenTag.token (o : OpenTag) : Token := ⟨.tag o.tag, o.position⟩

/-- The name of the tag that formats its content in a kind. -/
def FormatKind.tagName : FormatKind → String
  | bold => "b"
  | italic => "i"
  | underline => "u"

/-- What may stand in a list of nodes: anything, or text and formatting only. -/
inductive Mode where
  | block
  | inline
  deriving DecidableEq, Repr

namespace Grammar

/-- The names that do not open a switch tag in the place of a node. -/
def reserved : List String := ["b", "i", "u", "else", "url", "self", "user", "siteurl", "if"]

/-- An opening tag with a name. -/
def Opens (o : OpenTag) (name : String) : Prop := o.tag.closing = false ∧ o.tag.name = name

/-- An opening tag that stands for a binding site. -/
def OpensSwitch (R : Registry) (o : OpenTag) (site : BindingSite) : Prop :=
  o.tag.closing = false ∧ R.bindingSite? o.tag.name = some site

/-- A closing tag without `=` that has the name of an opening tag, both in
    lower case. -/
def Closes (o : OpenTag) (t : Token) : Prop :=
  ∃ tag, t.lexeme = .tag tag ∧ tag.closing = true ∧ tag.name = o.tag.name ∧ tag.attr = none

/-- A chain with the bindings `outer` takes `attr` for `site`: the site is new
    and, in a user chain, has nothing against the name. -/
def Admits (R : Registry) (kind : SwitchKind) (outer : Chain String (List Node))
    (site : BindingSite) (attr : String) : Prop :=
  (∀ b ∈ outer, b.site ≠ site) ∧
    (kind = .user → ∀ id, site = .site id → ∀ s ∈ R.get? id, s.checkUsername attr = none)

/-- The trimmed text of some content. -/
def textOf (ns : List Node) : String := Text.trim (Node.plainText ns)

/-- The binding of an innermost switch tag: the attribute and the content shown
    for it, or else the text of the content in the place of the attribute. -/
inductive Leaf (o : OpenTag) (site : BindingSite) (ns : List Node) :
    Binding String (List Node) → Prop
  | bare {attr : String} : o.tag.value? = some attr → textOf ns = "" →
      Leaf o site ns ⟨site, attr, none⟩
  | shown {attr : String} : o.tag.value? = some attr → textOf ns ≠ "" →
      Leaf o site ns ⟨site, attr, some (Node.trimEnds ns)⟩
  | echo : o.tag.value? = none → site ≠ .generic → textOf ns ≠ "" →
      Leaf o site ns ⟨site, textOf ns, none⟩

/-- What tokens spell. -/
inductive Phrase where
  | node (mode : Mode) (n : Node)
  | nodes (mode : Mode) (ns : List Node)
  /-- A chain inside the bindings `outer`. -/
  | chain (kind : SwitchKind) (outer bs : Chain String (List Node))

/-- The tokens that spell a phrase. -/
inductive Derives (R : Registry) : Phrase → List Token → Prop
  | text {mode : Mode} {cs : List Char} {p : Position} :
      Derives R (.node mode (.text (.ofList cs))) [⟨.text cs, p⟩]
  | format {mode : Mode} {kind : FormatKind} {o : OpenTag} {ns : List Node} {body : List Token}
      {c : Token} : Opens o kind.tagName → o.tag.attr = none → Derives R (.nodes mode ns) body →
      Closes o c → Derives R (.node mode (.format kind ns)) (o.token :: (body ++ [c]))
  | link {o : OpenTag} {url : String} {ns : List Node} {body : List Token} {c : Token} :
      Opens o "url" → o.tag.value? = some url → Derives R (.nodes .inline ns) body →
      Closes o c → Derives R (.node .block (.link url ns)) (o.token :: (body ++ [c]))
  | address {o : OpenTag} {ns : List Node} {body : List Token} {c : Token} :
      Opens o "url" → o.tag.value? = none → Derives R (.nodes .inline ns) body → Closes o c →
      textOf ns ≠ "" → Derives R (.node .block (.link (textOf ns) [])) (o.token :: (body ++ [c]))
  | self {o : OpenTag} {c : Token} : Opens o "self" → o.tag.attr = none → Closes o c →
      Derives R (.node .block (.self o.position)) [o.token, c]
  | wrapper {kind : SwitchKind} {o : OpenTag} {bs : Chain String (List Node)} {body : List Token}
      {c : Token} : Opens o kind.name → o.tag.attr = none → Derives R (.chain kind [] bs) body →
      Closes o c → Derives R (.node .block (.switch kind bs o.position)) (o.token :: (body ++ [c]))
  | switch {o : OpenTag} {bs : Chain String (List Node)} {body : List Token} :
      o.tag.name ∉ reserved → Derives R (.chain .user [] bs) (o.token :: body) →
      Derives R (.node .block (.switch .user bs o.position)) (o.token :: body)
  | whenOnly {o : OpenTag} {expression : String} {condition : Condition} {yes : List Node}
      {body : List Token} {c : Token} : Opens o "if" → o.tag.value? = some expression →
      Condition.parse R expression = .ok condition → Derives R (.nodes .block yes) body →
      Closes o c → Derives R (.node .block (.conditional condition yes none))
        (o.token :: (body ++ [c]))
  | whenElse {o e : OpenTag} {expression : String} {condition : Condition} {yes no : List Node}
      {body other : List Token} {c d : Token} : Opens o "if" → o.tag.value? = some expression →
      Condition.parse R expression = .ok condition → Derives R (.nodes .block yes) body →
      Closes o c → Opens e "else" → e.tag.attr = none → Derives R (.nodes .block no) other →
      Closes e d → Derives R (.node .block (.conditional condition yes (some no)))
        (o.token :: (body ++ c :: e.token :: (other ++ [d])))
  | nil {mode : Mode} : Derives R (.nodes mode []) []
  | cons {mode : Mode} {n : Node} {ns : List Node} {ts us : List Token} :
      Derives R (.node mode n) ts → Derives R (.nodes mode ns) us →
      Derives R (.nodes mode (n :: ns)) (ts ++ us)
  | leaf {kind : SwitchKind} {outer : Chain String (List Node)} {o : OpenTag}
      {site : BindingSite} {ns : List Node} {body : List Token} {c : Token}
      {b : Binding String (List Node)} : OpensSwitch R o site →
      (∀ i s, body.head? = some (OpenTag.token i) → ¬ OpensSwitch R i s) →
      Derives R (.nodes .inline ns) body → Closes o c → Leaf o site ns b →
      Admits R kind outer site b.attr → Derives R (.chain kind outer [b]) (o.token :: (body ++ [c]))
  | nested {kind : SwitchKind} {outer bs : Chain String (List Node)} {o : OpenTag}
      {site : BindingSite} {attr : String} {body : List Token} {c : Token} :
      OpensSwitch R o site → o.tag.value? = some attr → Admits R kind outer site attr →
      Derives R (.chain kind (outer ++ [⟨site, attr, none⟩]) bs) body → Closes o c →
      Derives R (.chain kind outer (⟨site, attr, none⟩ :: bs)) (o.token :: (body ++ [c]))

/-! ## First tokens -/

/-- Some tokens start with the opening tag of a second part. -/
def StartsElse (ts : List Token) : Prop := ∃ o, Opens o "else" ∧ ts.head? = some o.token

/-- Some tokens start with a closing tag, or there are none. -/
def Stops (ts : List Token) : Prop :=
  ∀ t ∈ ts.head?, ∃ tag, t.lexeme = .tag tag ∧ tag.closing = true

@[simp] theorem token_inj {a b : OpenTag} : a.token = b.token ↔ a = b := by
  obtain ⟨_, _⟩ := a
  obtain ⟨_, _⟩ := b
  simp [OpenTag.token]

theorem not_startsElse_nil : ¬ StartsElse [] := by
  rintro ⟨_, -, h⟩
  simp at h

/-- What starts with a tag of another name does not start with `[else]`. -/
theorem not_startsElse_of_name {o : OpenTag} (h : o.tag.name ≠ "else") (ts : List Token) :
    ¬ StartsElse (o.token :: ts) := by
  rintro ⟨e, he, hh⟩
  rw [List.head?_cons, Option.some.injEq, token_inj] at hh
  exact h (hh ▸ he.2)

theorem Opens.not_startsElse {o : OpenTag} {name : String} (h : Opens o name)
    (hn : name ≠ "else") (ts : List Token) : ¬ StartsElse (o.token :: ts) :=
  not_startsElse_of_name (h.2 ▸ hn) ts

theorem tagName_ne_else (kind : FormatKind) : kind.tagName ≠ "else" := by
  cases kind <;> decide

theorem name_ne_else (kind : SwitchKind) : kind.name ≠ "else" := by
  cases kind <;> decide

/-- A stop is not an `[else]`. -/
theorem Stops.not_startsElse {ts : List Token} (h : Stops ts) : ¬ StartsElse ts := by
  rintro ⟨o, ho, hh⟩
  obtain ⟨tag, ht, hc⟩ := h _ hh
  cases ht
  rw [ho.1] at hc
  exact absurd hc (by decide)

/-- A node is spelled by some tokens, of which the first is no `[else]`. -/
theorem Derives.node_start {R : Registry} {mode : Mode} {n : Node} {ts : List Token}
    (h : Derives R (.node mode n) ts) (us : List Token) : ¬ StartsElse (ts ++ us) := by
  cases h with
  | text =>
    rintro ⟨e, -, he⟩
    simp [OpenTag.token] at he
  | format ho => exact ho.not_startsElse (tagName_ne_else _) _
  | link ho => exact ho.not_startsElse (by decide) _
  | address ho => exact ho.not_startsElse (by decide) _
  | self ho => exact ho.not_startsElse (by decide) _
  | wrapper ho => exact ho.not_startsElse (name_ne_else _) _
  | switch ho => exact not_startsElse_of_name (fun h => ho (h ▸ by decide)) _
  | whenOnly ho => exact ho.not_startsElse (by decide) _
  | whenElse ho => exact ho.not_startsElse (by decide) _

theorem Derives.not_startsElse {R : Registry} {mode : Mode} {ns : List Node} {ts us : List Token}
    (h : Derives R (.nodes mode ns) ts) (hu : ¬ StartsElse us) : ¬ StartsElse (ts ++ us) := by
  cases h with
  | nil => exact hu
  | cons hn _ => rw [List.append_assoc]; exact hn.node_start _

/-- A chain is spelled by a switch tag and what follows it. -/
theorem Derives.chain_start {R : Registry} {kind : SwitchKind}
    {outer bs : Chain String (List Node)} {ts : List Token}
    (h : Derives R (.chain kind outer bs) ts) :
    ∃ o site body, ts = OpenTag.token o :: body ∧ OpensSwitch R o site := by
  cases h with
  | leaf ho => exact ⟨_, _, _, rfl, ho⟩
  | nested ho => exact ⟨_, _, _, rfl, ho⟩

end Grammar

end Crosspost
