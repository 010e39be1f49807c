/-
  Destination sites.

  A site has an id, aliases under which tags, conditions and configuration keys
  name it, the dialect its descriptions are written in, the file they go to,
  and rules for the accounts of its users: the address of a profile, the native
  mention of an account of its own or of another site, and a check of user names.

  * `Site.keys` are the spellings under which a site is found, and `Site.refusal?` the
    reason to refuse a user name in a configuration.
-/
import Crosspost.Site.Dialect
import Crosspost.Text.CodePoints
import Crosspost.Text.LowerCase

namespace Crosspost

/-- What a user name goes through to stand in an address. It takes a text. -/
inductive NameStep where
  | replace
  | split
  | trim
  deriving DecidableEq, Repr

/-- The site that an account belongs to, as other sites see it. -/
structure Owner where
  id : String
  name : String

/-- A destination site. -/
structure Site extends Owner where
  /-- Names under which the site is known, next to its id. -/
  aliases : List String
  /-- The dialect of its descriptions. -/
  dialect : Dialect
  /-- The file that its description is written to. -/
  outputFile : String
  /-- The address of a user's profile. -/
  profileUrl : CodePoints → String
  /-- What the name goes through to stand in that address. -/
  nameStep : Option NameStep := none
  /-- The native mention of a user of the owner site, where there is one. -/
  mention : Owner → CodePoints → Option String := fun _ _ => none
  /-- A reason to refuse a user name. -/
  checkUsername : String → Option String := fun _ => none

namespace Site

/-- The spellings under which a site is found, in lower case. -/
def keys (s : Site) : List String := (s.id :: s.aliases).map Text.lower

/-- Why a user name in a configuration is refused. There an empty reason counts as
    none; in a tag it does not. -/
def refusal? (s : Site) (name : String) : Option String := (s.checkUsername name).filter (· ≠ "")

/-- A name that is accepted everywhere is accepted in a configuration. -/
theorem refusal?_of_accepted {s : Site} {name : String} (h : s.checkUsername name = none) :
    s.refusal? name = none := by
  rw [refusal?, h, Option.filter_none]

end Site

end Crosspost
