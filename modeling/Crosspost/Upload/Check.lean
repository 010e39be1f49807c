/-
  Arguments against the workspace.

  * `Arguments.check` lists everything that is wrong with the paths of the
    arguments.
-/
import Crosspost.Upload.Arguments
import Crosspost.Workspace.World

namespace Crosspost.Arguments

/-- The problem of a path that need not be given and is no file. -/
def missingFile (w : World) (problem : String → ArgumentProblem) :
    Option String → List ArgumentProblem
  | some path => if w.hasFile path then [] else [problem path]
  | none => []

/-- The problems of arguments in a workspace. -/
def check (a : Arguments) (w : World) : List ArgumentProblem :=
  (if !a.needsUsernames && a.files.isEmpty then [.nothingToDo] else []) ++
  (if w.contains a.outputDir && !w.hasDirectory a.outputDir then [.outputIsFile a.outputDir]
    else []) ++
  missingFile w .noStoryFile a.storyPath? ++
  missingFile w .noDescriptionFile a.descriptionPath? ++
  a.files.flatMap (fun path => missingFile w .noFile (some path)) ++
  (if a.needsUsernames then missingFile w .noConfigFile (some a.config) else [])

end Crosspost.Arguments
