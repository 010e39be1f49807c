/-
  Rendering descriptions for a destination.

  * `Node.render` writes a node in the dialect of the destination, and
    `Document.render` a whole description;
  * a switch or `[self]` that stands for nothing there writes nothing and is
    reported as a `Gap`.
-/
import Crosspost.Config.Usernames
import Crosspost.Description.Node

namespace Crosspost

/-- What stands for nothing at a destination. -/
inductive GapKind where
  | self
  | siteurl
  deriving DecidableEq, Repr

/-- The name of a kind of gap. -/
def GapKind.name : GapKind → String
  | self => "self"
  | siteurl => "siteurl"

/-- A tag that wrote nothing at a destination. -/
structure Gap where
  kind : GapKind
  site : String
  position : Position
  deriving DecidableEq, Repr

/-- Written text, with the gaps in it. -/
structure Fragment where
  text : String
  gaps : List Gap
  deriving DecidableEq, Repr

namespace Fragment

/-- Nothing. -/
def empty : Fragment := ⟨"", []⟩

/-- Text without gaps. -/
def ofText (text : String) : Fragment := ⟨text, []⟩

/-- One fragment after another. -/
def append (a b : Fragment) : Fragment := ⟨a.text ++ b.text, a.gaps ++ b.gaps⟩

/-- A fragment with its text passed through a function. -/
def mapText (f : String → String) (a : Fragment) : Fragment := { a with text := f a.text }

end Fragment

/-- Why a description cannot be rendered. -/
inductive RenderError where
  /-- The destination is not registered. -/
  | unknownTarget (id : String)
  /-- A site that the description links to is not registered. -/
  | missingSite (id : String)
  /-- The address of a profile is to be made from what is no text. -/
  | notText (step : NameStep)
  deriving DecidableEq, Repr

/-- The text of a reason. -/
def RenderError.message : RenderError → String
  | unknownTarget id => "Unknown destination site \"" ++ id ++ "\""
  | missingSite id =>
    "Site \"" ++ id ++ "\" is used in the description but missing from the registry"
  | notText .replace => "username.replace is not a function"
  | notText .split => "username.split is not a function"
  | notText .trim => "handle.trim is not a function"

/-- A fragment, or the reason why there is none. -/
abbrev Rendered := Except RenderError Fragment

/-- What a rendering depends on, next to the description. -/
structure RenderContext where
  registry : Registry
  /-- The destination. -/
  site : Site
  usernames : Usernames
  flags : List String

namespace RenderContext

/-- A tag that writes nothing. -/
def gap (ctx : RenderContext) (kind : GapKind) (position : Position) : Rendered :=
  .ok ⟨"", [⟨kind, ctx.site.id, position⟩]⟩

/-- A link shown as a written label. -/
def link (ctx : RenderContext) (url : String) (label : Rendered) : Rendered :=
  label.map (Fragment.mapText (ctx.site.dialect.link url))

/-- What is shown for the binding picked in a chain. -/
def shown (r : Resolution Account Rendered) : Rendered :=
  r.display (fun account => .ok (.ofText account.text)) (.ok .empty)

/-- The address of the profile of an account. -/
def profile (owner : Site) : Account → Except RenderError String
  | .own name => .ok (owner.profileUrl name)
  | .member m =>
    match owner.nameStep with
    | some step => .error (.notText step)
    | none => .ok (owner.profileUrl m.text)

/-- An account: the destination's mention of it, unless the tags give a text to
    show, or else a link to its profile. -/
def account (ctx : RenderContext) (r : Resolution Account Rendered) : Rendered :=
  match r.site with
  | .generic => ctx.link r.attr.text (shown r)
  | .site id =>
    match ctx.registry.get? id with
    | none => .error (.missingSite id)
    | some owner =>
      let mention := if r.label.isNone then ctx.site.mention owner.toOwner r.attr.points else none
      match mention with
      | some text => .ok (.ofText text)
      | none => do ctx.link (← profile owner r.attr) (shown r)

/-- The author's own account at the destination. -/
def self (ctx : RenderContext) (position : Position) : Rendered :=
  match (ctx.usernames.selfChain? ctx.registry).bind (Chain.resolve · .user ctx.site.id) with
  | some r => if r.rule = .exact then ctx.account r else ctx.gap .self position
  | none => ctx.gap .self position

/-- A switch whose texts are written. An address without a text of its own is
    shown as it is. -/
def switch (ctx : RenderContext) (kind : SwitchKind) (chain : Chain Account Rendered)
    (position : Position) : Rendered :=
  match chain.resolve kind ctx.site.id with
  | none => ctx.gap .siteurl position
  | some r =>
    match kind, r.site with
    | _, .generic => ctx.link r.attr.text (shown r)
    | .user, _ => ctx.account r
    | .siteurl, _ => ctx.link r.attr.text (r.label.getD (.ok .empty))

end RenderContext

namespace Node

mutual
/-- A node as the destination shows it. -/
def render (ctx : RenderContext) : Node → Rendered
  | text value => .ok (.ofText value)
  | format kind children =>
    (renderAll ctx children).map (Fragment.mapText (ctx.site.dialect.format kind))
  | link url children => ctx.link url (renderAll ctx children)
  | self position => ctx.self position
  | switch kind chain position => ctx.switch kind (renderChain ctx chain) position
  | conditional condition whenTrue whenFalse =>
    if condition.holds ctx.site.id ctx.flags then renderAll ctx whenTrue
    else (renderOption ctx whenFalse).getD (.ok .empty)

/-- The nodes of a list one after another. -/
def renderAll (ctx : RenderContext) : List Node → Rendered
  | [] => .ok .empty
  | n :: ns =>
    match n.render ctx with
    | .error e => .error e
    | .ok a => (renderAll ctx ns).map a.append

/-- A list of nodes that need not be there. -/
def renderOption (ctx : RenderContext) : Option (List Node) → Option Rendered
  | none => none
  | some ns => some (renderAll ctx ns)

/-- A chain with its texts written. -/
def renderChain (ctx : RenderContext) :
    List (Binding String (List Node)) → Chain Account Rendered
  | [] => []
  | b :: bs => renderBinding ctx b :: renderChain ctx bs

/-- A binding with its text written. -/
def renderBinding (ctx : RenderContext) : Binding String (List Node) → Binding Account Rendered
  | ⟨site, attr, display⟩ => ⟨site, .own attr, renderOption ctx display⟩
end

end Node

namespace Document

/-- A description rendered for the destination with an id. -/
def render (registry : Registry) (usernames : Usernames) (flags : List String)
    (nodes : List Node) (target : String) : Rendered :=
  match registry.get? target with
  | none => .error (.unknownTarget target)
  | some site => Node.renderAll ⟨registry, site, usernames, flags⟩ nodes

end Document

end Crosspost
