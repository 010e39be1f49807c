/-
  Switch chains: one attribute per destination.

  A chain holds bindings from the outermost tag to the innermost one. Each
  binds a site, or the catch-all `generic`, to a user name or an address, and may
  carry the text shown in its place.

  * `Chain.resolve` picks the binding for a destination: its own, else the
    generic one, else, among user chains, the innermost;
  * `Chain.override?` is the text shown for every site: that of the innermost site
    binding that has one;
  * `Chain.problem?` says what is wrong with adding a binding to a chain.
-/
namespace Crosspost

/-- What a switch tag stands for. -/
inductive BindingSite where
  | generic
  | site (id : String)
  deriving DecidableEq, Repr

namespace BindingSite

/-- The binding site of an id; the id `generic` is the catch-all. -/
def ofId (id : String) : BindingSite := if id = "generic" then .generic else .site id

/-- The id of a binding site. -/
def id : BindingSite → String
  | generic => "generic"
  | site id => id

end BindingSite

/-- A switch tag of a chain, with its attribute in the form `α` and the text it
    shows in the form `δ`. -/
structure Binding (α δ : Type) where
  site : BindingSite
  attr : α
  display : Option δ
  deriving Repr

/-- Bindings from the outermost tag to the innermost. -/
abbrev Chain (α δ : Type) := List (Binding α δ)

/-- What the attributes of a chain are: user names, or addresses. -/
inductive SwitchKind where
  | user
  | siteurl
  deriving DecidableEq, Repr

/-- The name of the tag that wraps a chain of a kind. -/
def SwitchKind.name : SwitchKind → String
  | user => "user"
  | siteurl => "siteurl"

/-- Why a binding was picked. -/
inductive Rule where
  | exact
  | generic
  | innermost
  deriving DecidableEq, Repr

/-- The name of a rule. -/
def Rule.name : Rule → String
  | exact => "exact"
  | generic => "generic"
  | innermost => "innermost"

/-- The binding picked for a destination. `label` is the text that tags give;
    without one, the attribute of a site is shown as it is. -/
structure Resolution (α δ : Type) where
  rule : Rule
  site : BindingSite
  attr : α
  label : Option δ

/-- The text shown for a resolution, where `echo` shows an attribute and
    `nothing` is the empty text. -/
def Resolution.display {α δ : Type} (r : Resolution α δ) (echo : α → δ) (nothing : δ) : δ :=
  r.label.getD (if r.rule = .generic then nothing else echo r.attr)

/-- A reason to refuse a binding in a chain. -/
inductive ChainProblem where
  | secondGeneric
  | secondSite (id : String)
  deriving DecidableEq, Repr

/-- The text of a reason. -/
def ChainProblem.message : ChainProblem → String
  | secondGeneric => "A switch chain can only contain one [generic] tag"
  | secondSite id => "Duplicate switch tag for site \"" ++ id ++ "\" in the same chain"

namespace Chain

variable {α δ : Type}

/-- The text of the innermost site binding that has one. -/
def override? (chain : Chain α δ) : Option δ :=
  chain.reverse.findSome? fun b => if b.site = .generic then none else b.display

/-- The binding of a site, or the generic one. -/
def find? (chain : Chain α δ) (site : BindingSite) : Option (Binding α δ) :=
  List.find? (·.site = site) chain

/-- The binding that applies at a destination. -/
def resolve (chain : Chain α δ) (kind : SwitchKind) (target : String) : Option (Resolution α δ) :=
  match chain.find? (.ofId target) with
  | some b => some ⟨.exact, .ofId target, b.attr, chain.override?⟩
  | none =>
    match chain.find? .generic with
    | some b => some ⟨.generic, .generic, b.attr, b.display.or chain.override?⟩
    | none =>
      match kind, chain.getLast? with
      | .user, some b => some ⟨.innermost, b.site, b.attr, chain.override?⟩
      | _, _ => none

/-- What is wrong with adding a binding of `site` to a chain. -/
def problem? (chain : Chain α δ) (site : BindingSite) : Option ChainProblem :=
  if chain.any (·.site = site) then
    some (match site with
      | .generic => .secondGeneric
      | .site id => .secondSite id)
  else none

end Chain

end Crosspost
