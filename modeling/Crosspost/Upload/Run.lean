/-
  A run: everything needed for an upload, in one directory.

  * `OutputDir.use` lets a computation fill the output directory; what was there
    is moved aside before, and put back if the computation fails;
  * `Upload.run` reads the configuration and writes story, descriptions and other
    files.
-/
import Crosspost.Upload.Documents

namespace Crosspost

/-! ## The output directory -/

namespace OutputDir

/-- A directory that was moved aside. -/
structure Aside where
  /-- Where the directory was. -/
  place : Location
  /-- The directory around it now. -/
  backup : Location

/-- The name that a directory has inside its backup. -/
def backupName : String := "old_out"

/-- Where a new directory beside a location is made. -/
def backupOf (w : World) (place : Location) : Location :=
  place.dropLast ++ [w.tree.freshName ".gallery-upload-"]

/-- Makes a new directory beside a location. -/
def makeBackup (place : Location) (w : World) : World :=
  { w with tree := w.tree.set (backupOf w place) .directory }

/-- Moves what is at a location into a new directory beside it. -/
def moveAside (w : World) (place : Location) : World × Aside :=
  let backup := backupOf w place
  ((makeBackup place w).relocate place (backup ++ [backupName]), ⟨place, backup⟩)

/-- Puts a directory back, in the place of what is there. -/
def restore (a : Aside) (w : World) : World :=
  ((w.remove a.place).relocate (a.backup ++ [backupName]) a.place).remove a.backup

/-- Drops a directory that was moved aside. -/
def discard (a : Aside) (w : World) : World := w.remove a.backup

/-- What is to be moved aside: what is at a path, unless it is to be kept. -/
def toMove? (path : String) (keep : Bool) (w : World) : Option Location :=
  if keep then none else (w.locate path).toOption

/-- Runs a computation that fills the directory at a path. Unless it is to be
    kept, what is there is moved aside, and put back after a failure. The root
    of the file system cannot be moved, which shows only when there is a new
    directory for it. -/
def use {α : Type} (path : String) (keep : Bool) (body : Run Failure α) : Run Failure α := do
  let w ← get
  match toMove? path keep w with
  | none =>
    Run.perform .system (·.makeDirs path)
    body
  | some [] =>
    modify (makeBackup [])
    throw (.system .busy)
  | some place =>
    let (moved, aside) := moveAside w place
    set moved
    Run.perform .system (·.makeDirs path)
    try
      let result ← body
      modify (discard aside)
      return result
    catch e =>
      modify (restore aside)
      throw e

end OutputDir

/-! ## Runs -/

/-- What a run has made. -/
structure Summary where
  /-- The files written, in order. -/
  files : List String
  descriptions : List SiteDescription

namespace Upload

/-- The user names for a run; none where neither a story nor a description
    needs them. -/
def loadUsernames (s : Setup) (a : Arguments) : Run Failure Usernames := do
  if a.needsUsernames then
    match Setup.readUsernames s.registry a.config (← get) with
    | .error e => throw (.usernames e)
    | .ok loaded =>
      modify (s.recordAll (loaded.ignoredKeys.map fun key =>
        { level := .warn, message := "Ignoring unknown configuration key \"" ++ key ++ "\"" }))
      return loaded.usernames
  else return []

/-- The flags for a run. -/
def loadFlags (s : Setup) (a : Arguments) : Run Failure (List String) := do
  match Flags.ofOptions a.defineOptions with
  | .error e => throw (.flags e)
  | .ok flags =>
    if !flags.duplicates.isEmpty then
      s.log .warn "Duplicated entries defined with -D / --define-option"
        [("duplicates", .array (flags.duplicates.map .text))]
    return flags.names

/-- Fills the output directory. -/
def fill (s : Setup) (a : Arguments) (usernames : Usernames) (flags : List String)
    (outDir : String) : Run Failure Summary := do
  let story ← match a.storyPath? with
    | some path => s.writeStory usernames path outDir a.ignoreEmptyFiles
    | none => pure []
  let (descriptions, files) ← match a.descriptionPath? with
    | some path => s.writeDescriptions usernames flags path outDir a.ignoreEmptyFiles
    | none => pure ([], [])
  let copies ← Setup.copyFiles outDir a.files
  return ⟨story ++ files ++ copies, descriptions⟩

/-- Makes everything that the arguments ask for. -/
def run (s : Setup) (a : Arguments) : Run Failure Summary := do
  let usernames ← loadUsernames s a
  let flags ← loadFlags s a
  let outDir := Path.resolve (← get).root a.outputDir
  OutputDir.use outDir a.keepOutDir (fill s a usernames flags outDir)

end Upload

end Crosspost
