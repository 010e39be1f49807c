/-
  The author's user names, one per site.

  * `Usernames.get?` is the name for a site's id; the empty name counts as one, and
    a name may hold code points that are no characters;
  * `Usernames.account?` is what stands for the author's account on a site: the name,
    or the member that the table has under the id;
  * `Usernames.selfChain?` is the chain that stands for the author: a binding for
    every site of a registry that has an account.
-/
import Crosspost.Config.Member
import Crosspost.Description.Chain
import Crosspost.Site.Registry

namespace Crosspost

/-- User names by the ids of their sites. -/
abbrev Usernames := List (String × CodePoints)

/-- What stands for an account on a site. -/
abbrev Account := Held CodePoints

namespace Account

/-- The code points of an account. -/
def points : Account → CodePoints
  | .own name => name
  | .member m => m.text

/-- The text of an account. -/
def text (a : Account) : String := a.points.text

end Account

namespace Usernames

/-- The user name for a site. -/
def get? (usernames : Usernames) (id : String) : Option CodePoints :=
  usernames.lookup id

/-- The author's account on a site. -/
def account? (usernames : Usernames) (id : String) : Option Account :=
  Held.find? (usernames.get? id) id

/-- The bindings of the author's accounts, in the order of the registry. -/
def selfBindings {δ : Type} (usernames : Usernames) (registry : Registry) : Chain Account δ :=
  registry.sites.filterMap fun site =>
    (usernames.account? site.id).map fun account => ⟨.ofId site.id, account, none⟩

/-- The chain that stands for the author; nothing when no site has an account. -/
def selfChain? {δ : Type} (usernames : Usernames) (registry : Registry) :
    Option (Chain Account δ) :=
  match usernames.selfBindings registry with
  | [] => none
  | chain => some chain

end Usernames

end Crosspost
