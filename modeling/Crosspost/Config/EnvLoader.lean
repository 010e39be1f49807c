/-
  What adds environment variables before the command begins.

  The command leaves it to a loader to add variables to those that are set, such as
  those of a file, and begins when the loader is done.

  * `EnvLoader` is any such loader, and `Loading` is what comes of it.
-/
import Crosspost.Config.Environment
import Crosspost.Workspace.World

namespace Crosspost

/-- What comes of loading variables. -/
structure Loading where
  env : Variables
  /-- The lines that the loader prints. -/
  lines : List String := []
  /-- Whether the command may begin; if not, an error of the loader ends the program. -/
  completed : Bool := true
  deriving DecidableEq, Repr

/-- What loads variables beside those that are set: it sees these, the arguments of the
    command and the world, in which it changes nothing. -/
abbrev EnvLoader := Variables → List String → World → Loading

end Crosspost
