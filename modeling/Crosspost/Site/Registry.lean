/-
  Registries of destination sites.

  A registry lists sites with different ids such that no spelling names two of
  them; `Registry.ofSites` builds one or reports the first conflict.

  * `Registry.resolve?` finds a site by id or alias, in any letter case and with
    white space around it; `Registry.get?` finds it by its exact id, which
    `Registry.has` knows;
  * `Registry.aliases` lists every spelling in ascending order.
-/
import Crosspost.Site.Builtin
import Crosspost.Text.Units

namespace Crosspost

/-- Why a list of sites makes no registry. -/
inductive RegistryError where
  /-- Two sites have one id. -/
  | duplicateId (id : String)
  /-- A spelling names two sites. -/
  | sharedAlias (key first second : String)
  deriving DecidableEq, Repr

/-- The text of a conflict. -/
def RegistryError.message : RegistryError → String
  | duplicateId id => "Site \"" ++ id ++ "\" is registered twice"
  | sharedAlias key first second =>
    "Alias \"" ++ key ++ "\" is claimed by both \"" ++ first ++ "\" and \"" ++ second ++ "\""

namespace Registry

/-- The first conflict of a site with earlier ones. -/
def conflictWith (earlier : List Site) (site : Site) : Option RegistryError :=
  if earlier.any (·.id == site.id) then some (.duplicateId site.id)
  else site.keys.findSome? fun key =>
    (earlier.find? (·.keys.contains key)).map fun other => .sharedAlias key other.id site.id

/-- The first conflict among sites that follow the `earlier` ones. -/
def conflict? (earlier : List Site) : List Site → Option RegistryError
  | [] => none
  | site :: sites => (conflictWith earlier site).or (conflict? (earlier ++ [site]) sites)

end Registry

/-- Sites without a conflict, in the order they were given. -/
structure Registry where
  sites : List Site
  consistent : Registry.conflict? [] sites = none

namespace Registry

/-- The registry of a list of sites. -/
def ofSites (sites : List Site) : Except RegistryError Registry :=
  match h : conflict? [] sites with
  | some error => .error error
  | none => .ok ⟨sites, h⟩

/-- The registry of the built-in sites. -/
def builtin : Registry := ⟨Site.builtin, by decide +kernel⟩

/-- The site with an id. -/
def get? (registry : Registry) (id : String) : Option Site := registry.sites.find? (·.id == id)

/-- Whether an id is registered. -/
def has (registry : Registry) (id : String) : Bool := registry.sites.any (·.id == id)

/-- The site that an alias names. -/
def resolve? (registry : Registry) (name : String) : Option Site :=
  registry.sites.find? (·.keys.contains (Text.lower (Text.trim name)))

/-- Every spelling that names a site, in ascending order. -/
def aliases (registry : Registry) : List String :=
  Text.sorted (registry.sites.flatMap Site.keys).eraseDups

end Registry

end Crosspost
