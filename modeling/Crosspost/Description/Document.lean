/-
  Reading descriptions.

  The tokens of a source are read one by one. What is known after some of them
  is a `Reading`: the lists of nodes under construction, each with the tag that
  opened it, and what the next token is taken for. The first token that does not
  fit ends the reading with an error at its position or at that of the tag it
  leaves open, whatever follows.

  * `Reading.step` takes a token, and `Reading.finish` the end of the source;
  * `Document.ofTokens` reads a list of tokens and `Document.parse` a source.
-/
import Crosspost.Description.Node
import Crosspost.Description.Problem
import Crosspost.Description.Token

namespace Crosspost

/-! ## Open tags -/

/-- An opening tag that has been read and not been closed. -/
structure OpenTag where
  tag : Tag
  position : Position

/-- The tags that have a meaning of their own, whatever the registry holds. -/
inductive Keyword where
  | format (kind : FormatKind)
  | otherwise
  | link
  | self
  | wrapper (kind : SwitchKind)
  | condition
  deriving DecidableEq, Repr

/-- The meaning of a tag's name, if it has one of its own. -/
def Keyword.ofName? (name : String) : Option Keyword :=
  if name = "b" then some (.format .bold)
  else if name = "i" then some (.format .italic)
  else if name = "u" then some (.format .underline)
  else if name = "else" then some .otherwise
  else if name = "url" then some .link
  else if name = "self" then some .self
  else if name = "user" then some (.wrapper .user)
  else if name = "siteurl" then some (.wrapper .siteurl)
  else if name = "if" then some .condition
  else none

/-- The binding site that a switch tag's name stands for. -/
def Registry.bindingSite? (registry : Registry) (name : String) : Option BindingSite :=
  if name = "generic" then some .generic
  else (registry.resolve? name).map fun site => .ofId site.id

/-- A switch chain of which the tags up to the innermost one are read. -/
structure OpenChain where
  kind : SwitchKind
  /-- The tag around the chain, if there is one. -/
  wrapper : Option OpenTag
  /-- The enclosing switch tags with their bindings, outermost first. -/
  outer : List (OpenTag × Binding String (List Node))
  inner : OpenTag
  site : BindingSite

/-- What a list of nodes becomes when its tag is closed. -/
inductive Frame where
  | format (opener : OpenTag) (kind : FormatKind)
  | link (opener : OpenTag)
  /-- The text of the innermost switch tag of a chain. -/
  | label (chain : OpenChain)
  | whenTrue (opener : OpenTag) (condition : Condition)
  | whenFalse (opener : OpenTag) (condition : Condition) (whenTrue : List Node)

namespace Frame

/-- The tag that opened a list. -/
def opener : Frame → OpenTag
  | format o _ | link o | whenTrue o _ | whenFalse o _ _ => o
  | label chain => chain.inner

/-- Whether a list, and any list inside it, holds only text and formatting. -/
def isInline : Frame → Bool
  | link _ | label _ => true
  | _ => false

end Frame

/-! ## Readings -/

/-- What the next token is taken for. -/
inductive Expectation where
  /-- A node of the innermost list, or the end of that list. -/
  | node
  /-- The first switch tag of a wrapper. -/
  | chain (wrapper : OpenTag) (kind : SwitchKind)
  /-- A switch tag inside the innermost one of a chain, or else its text. -/
  | nested (chain : OpenChain)
  /-- The closing tag of `opener`, else the problem; then the closing tags of
      `more` likewise; then `done` is complete. -/
  | close (opener : OpenTag) (problem : Problem) (more : List (OpenTag × Problem)) (done : Node)
  /-- An `[else]` after the first part of a conditional, or anything else after
      a conditional without a second part. -/
  | otherwise (condition : Condition) (whenTrue : List Node)

/-- What is known of a description when some tokens are read. -/
structure Reading where
  /-- The open lists from the innermost one outwards: what each becomes, and the
      nodes that stand before it. -/
  levels : List (Frame × List Node)
  /-- The nodes of the innermost list. -/
  nodes : List Node
  expectation : Expectation

namespace Reading

/-- The reading before any token. -/
def start : Reading := ⟨[], [], .node⟩

/-- The error that a tag is at fault. -/
def fault {α : Type} (problem : Problem) (position : Position) : Except ParseError α :=
  .error ⟨problem, position⟩

/-- The reading with a node added to the innermost list. -/
def add (r : Reading) (node : Node) : Reading := ⟨r.levels, r.nodes ++ [node], .node⟩

/-- The reading with a list opened inside the innermost one. -/
def enter (r : Reading) (frame : Frame) : Reading := ⟨(frame, r.nodes) :: r.levels, [], .node⟩

/-- The reading that waits for something else than a node. -/
def await (r : Reading) (expectation : Expectation) : Reading := { r with expectation }

/-- Whether only text and formatting may be added. -/
def isInline (r : Reading) : Bool := r.levels.any (·.1.isInline)

/-! ### Chains -/

/-- Refuses a binding that its chain, or the site's rule for user names, does
    not allow. -/
def checkBinding (registry : Registry) (chain : OpenChain) (value : String) :
    Except ParseError Unit :=
  match Chain.problem? (chain.outer.map (·.2)) chain.site with
  | some problem => fault (.chain problem) chain.inner.position
  | none =>
    match chain.kind, chain.site with
    | .user, .site id =>
      match (registry.get? id).bind (·.checkUsername value) with
      | some reason => fault (.username reason) chain.inner.position
      | none => .ok ()
    | _, _ => .ok ()

/-- The chain continued by a switch tag inside its innermost one. -/
def nest (registry : Registry) (chain : OpenChain) (inner : OpenTag) (site : BindingSite) :
    Except ParseError OpenChain := do
  match chain.inner.tag.value? with
  | none => fault (.nestedWithoutAttr chain.inner.tag.raw chain.inner.tag.name) chain.inner.position
  | some value =>
    checkBinding registry chain value
    .ok { chain with
      outer := chain.outer ++ [(chain.inner, ⟨chain.site, value, none⟩)]
      inner, site }

/-- The binding of the innermost switch tag, which holds `label`. -/
def innermost (chain : OpenChain) (label : List Node) :
    Except ParseError (Binding String (List Node)) :=
  let text := Text.trim (Node.plainText label)
  match chain.inner.tag.value? with
  | some value => .ok ⟨chain.site, value, if text = "" then none else some (Node.trimEnds label)⟩
  | none =>
    if chain.site = .generic then fault .genericWithoutUrl chain.inner.position
    else if text = "" then fault (.emptySwitch chain.inner.tag.raw) chain.inner.position
    else .ok ⟨chain.site, text, none⟩

/-- The tags that must be closed after the innermost one, each with the problem
    of anything else in the place of its closing tag. -/
def closings (chain : OpenChain) : List (OpenTag × Problem) :=
  let switches := chain.outer.reverse.map fun (o, _) => (o, Problem.switchWithMore o.tag.raw)
  match chain.wrapper with
  | some o => switches ++ [(o, .wrapperWithMore chain.kind)]
  | none => switches

/-- The place of a chain: that of its wrapper, or of its outermost tag. -/
def place (chain : OpenChain) : Position :=
  match chain.wrapper, chain.outer with
  | some o, _ => o.position
  | none, (o, _) :: _ => o.position
  | none, [] => chain.inner.position

/-- The reading after the closing tag of the innermost switch tag. -/
def closeChain (registry : Registry) (r : Reading) (chain : OpenChain) (label : List Node) :
    Except ParseError Reading := do
  let binding ← innermost chain label
  checkBinding registry chain binding.attr
  let node := Node.switch chain.kind (chain.outer.map (·.2) ++ [binding]) (place chain)
  match closings chain with
  | [] => .ok (r.add node)
  | (opener, problem) :: more => .ok (r.await (.close opener problem more node))

/-! ### Nodes -/

/-- The reading after the closing tag of a list, where `r` stands around the
    list. -/
def leave (registry : Registry) (r : Reading) (frame : Frame) (nodes : List Node) :
    Except ParseError Reading :=
  match frame with
  | .format _ kind => .ok (r.add (.format kind nodes))
  | .link opener =>
    match opener.tag.value? with
    | some url => .ok (r.add (.link url nodes))
    | none =>
      let url := Text.trim (Node.plainText nodes)
      if url = "" then fault .linkWithoutUrl opener.position else .ok (r.add (.link url []))
  | .label chain => closeChain registry r chain nodes
  | .whenTrue _ condition => .ok (r.await (.otherwise condition nodes))
  | .whenFalse _ condition whenTrue => .ok (r.add (.conditional condition whenTrue (some nodes)))

/-- Refuses an attribute. -/
def refuseAttr (opener : OpenTag) : Except ParseError Unit :=
  if opener.tag.attr.isSome then fault (.needlessAttr opener.tag.name) opener.position else .ok ()

/-- The reading after an opening tag in the place of a node. -/
def openNode (registry : Registry) (r : Reading) (o : OpenTag) : Except ParseError Reading := do
  let name := o.tag.name
  match Keyword.ofName? name with
  | some (.format kind) =>
    refuseAttr o
    .ok (r.enter (.format o kind))
  | some .otherwise => fault .strayElse o.position
  | keyword =>
    let site := registry.bindingSite? name
    if keyword.isNone && site.isNone then fault (.unknownTag o.tag.raw) o.position
    else if r.isInline then fault (.notInline o.tag.raw) o.position
    else match keyword, site with
      | some .link, _ => .ok (r.enter (.link o))
      | some .self, _ =>
        refuseAttr o
        .ok (r.await (.close o .selfNotEmpty [] (.self o.position)))
      | some (.wrapper kind), _ =>
        refuseAttr o
        .ok (r.await (.chain o kind))
      | some .condition, _ =>
        match o.tag.value? with
        | none => fault .ifWithoutCondition o.position
        | some expression =>
          match Condition.parse registry expression with
          | .error error => fault (.condition error) o.position
          | .ok condition => .ok (r.enter (.whenTrue o condition))
      | _, some site => .ok (r.await (.nested ⟨.user, none, [], o, site⟩))
      | _, none => fault (.unknownTag o.tag.raw) o.position

/-- The reading after a closing tag in the place of a node. -/
def closeNode (registry : Registry) (r : Reading) (tag : Tag) (position : Position) :
    Except ParseError Reading :=
  match r.levels with
  | [] => fault (.unexpectedClose tag.raw) position
  | (frame, before) :: levels =>
    if tag.name ≠ frame.opener.tag.name then
      fault (.mismatchedClose frame.opener.tag.name tag.raw) position
    else if tag.attr.isSome then fault (.attrOnClose tag.raw) position
    else leave registry ⟨levels, before, .node⟩ frame r.nodes

/-- The reading after a token in the place of a node. -/
def node (registry : Registry) (r : Reading) (t : Token) : Except ParseError Reading :=
  match t.lexeme with
  | .text cs => .ok (r.add (.text (.ofList cs)))
  | .tag tag =>
    if tag.closing then closeNode registry r tag t.position
    else openNode registry r ⟨tag, t.position⟩

/-! ### Tokens -/

/-- The opening tag of a token and the binding site it stands for, if it is a
    switch tag. -/
def switchTag? (registry : Registry) (t : Token) : Option (OpenTag × BindingSite) :=
  match t.lexeme with
  | .tag tag =>
    if tag.closing then none
    else (registry.bindingSite? tag.name).map fun site => (⟨tag, t.position⟩, site)
  | .text _ => none

/-- Whether a token opens the second part of a conditional. -/
def isElse (t : Token) : Bool :=
  match t.lexeme with
  | .tag tag => !tag.closing && tag.name == "else"
  | .text _ => false

/-- Refuses a token that is not the closing tag of `opener`. -/
def expectClose (opener : OpenTag) (problem : Problem) (t : Token) : Except ParseError Unit :=
  match t.lexeme with
  | .tag tag =>
    if tag.closing && tag.name == opener.tag.name then
      if tag.attr.isSome then fault (.attrOnClose tag.raw) t.position else .ok ()
    else fault problem t.position
  | .text _ => fault problem t.position

/-- The reading after one more token. -/
def step (registry : Registry) (r : Reading) (t : Token) : Except ParseError Reading :=
  match r.expectation with
  | .node => node registry r t
  | .chain wrapper kind =>
    match switchTag? registry t with
    | some (o, site) => .ok (r.await (.nested ⟨kind, some wrapper, [], o, site⟩))
    | none => fault (.wrapperWithoutSwitch kind) t.position
  | .nested chain =>
    match switchTag? registry t with
    | some (o, site) => do
      let chain ← nest registry chain o site
      .ok (r.await (.nested chain))
    | none => node registry (r.enter (.label chain)) t
  | .close opener problem more done => do
    expectClose opener problem t
    match more with
    | [] => .ok (r.add done)
    | (opener, problem) :: more => .ok (r.await (.close opener problem more done))
  | .otherwise condition whenTrue =>
    match t.lexeme, isElse t with
    | .tag tag, true => do
      refuseAttr ⟨tag, t.position⟩
      .ok (r.enter (.whenFalse ⟨tag, t.position⟩ condition whenTrue))
    | _, _ => node registry (r.add (.conditional condition whenTrue none)) t

/-- The nodes of a reading at the end of the source, where no list may be
    open. -/
def complete (r : Reading) : Except ParseError (List Node) :=
  match r.levels with
  | [] => .ok r.nodes
  | (frame, _) :: _ => fault (.unclosed frame.opener.tag.raw) frame.opener.position

/-- The nodes of a reading at the end of the source. -/
def finish (r : Reading) : Except ParseError (List Node) :=
  match r.expectation with
  | .node => r.complete
  | .chain wrapper kind => fault (.wrapperWithoutSwitch kind) wrapper.position
  | .nested chain => fault (.unclosed chain.inner.tag.raw) chain.inner.position
  | .close opener _ _ _ => fault (.unclosed opener.tag.raw) opener.position
  | .otherwise condition whenTrue => (r.add (.conditional condition whenTrue none)).complete

end Reading

namespace Document

/-- The nodes that a list of tokens makes. -/
def ofTokens (registry : Registry) (tokens : List Token) : Except ParseError (List Node) := do
  let reading ← tokens.foldlM (Reading.step registry) Reading.start
  reading.finish

/-- The nodes that a source text makes. -/
def parse (registry : Registry) (source : String) : Except ParseError (List Node) :=
  ofTokens registry (Token.ofSource source)

end Document

end Crosspost
