/-
  Federated handles: a user on an instance.

  * `Handle.parse?` reads `user@instance` or `@user@instance`, whatever white
    space stands around it; neither part holds `@` or white space, and the
    instance has a dot with something on each side;
  * `Handle.mention` writes a handle back.
-/
import Crosspost.Text.Lines

namespace Crosspost

/-- A user on an instance. -/
structure Handle where
  user : String
  host : String
  deriving DecidableEq, Repr

namespace Handle

/-- Whether a character may stand in a part of a handle. -/
def isPartChar (c : Char) : Bool := c != '@' && !isBlank c

/-- Whether a text names an instance: parts with a dot inside. -/
def isHost (cs : List Char) : Bool :=
  cs.all isPartChar && (cs.drop 1).dropLast.any (· == '.')

/-- The handle `user@host` that a text without leading `@` spells. -/
def ofParts? (cs : List Char) : Option Handle :=
  let user := cs.takeWhile (· != '@')
  match cs.dropWhile (· != '@') with
  | [] => none
  | _ :: host =>
    if !user.isEmpty && user.all isPartChar && isHost host then
      some ⟨.ofList user, .ofList host⟩
    else none

/-- The handle that a text spells. -/
def parse? (s : String) : Option Handle :=
  match Chars.trim s.toList with
  | '@' :: cs => ofParts? cs
  | cs => ofParts? cs

/-- The handle as it is mentioned on its own network. -/
def mention (h : Handle) : String := "@" ++ h.user ++ "@" ++ h.host

end Handle

end Crosspost
