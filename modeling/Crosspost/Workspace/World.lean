/-
  What a run of the program acts on.

  * `World` is a file system with the directory that the program works in, and
    with what was written to the error stream and to the log, and what the
    document converter was asked for; `World.ofTree` starts one;
  * `World.read`, `World.write` and the other operations take paths, and
    `World.relocate` moves a directory, with the working directory if it lies
    inside;
  * `Run` are computations on a world that may fail: a failure keeps the world
    as it is by then.
-/
import Crosspost.Log.Event
import Crosspost.Workspace.Tree

namespace Crosspost

/-- Something that a document converter is asked for. -/
inductive ConverterCall where
  | extract (path : String)
  | richText (text : String)
  deriving DecidableEq, Repr

/-- A file system and the traces of a run. -/
structure World where
  /-- The absolute path at which the working directory was found. -/
  root : String
  /-- Where the working directory is now. -/
  here : Location
  tree : Tree
  /-- The lines on the error stream. -/
  console : List String := []
  /-- The log entries. -/
  entries : List (LogLevel × String) := []
  calls : List ConverterCall := []

/-- Computations on a world that may fail. -/
abbrev Run (ε α : Type) := ExceptT ε (StateM World) α

namespace World

/-- The location of an absolute path without links. -/
def placeOf (path : String) : Location := Path.resolveNames true path

/-- The world whose working directory has the path `root` and holds a tree. -/
def ofTree (root : String) (t : Tree) : World :=
  { root, here := placeOf root, tree := t.mount (placeOf root) }

/-- What is below the path at which the working directory was found. -/
def workspace (w : World) : Tree := w.tree.below (placeOf w.root)

/-! ## Paths -/

/-- Refuses a path with a null character, which is given as `role`. -/
def checkPath (role path : String) : Except FsError Unit :=
  if path.toList.contains '\x00' then .error (.nullCharacter role path) else .ok ()

/-- Where the way of a path starts, and the names that it goes through. -/
def route (w : World) (path : String) : Except FsError (Location × List String) := do
  checkPath "path" path
  if path = "" then .error .noEntry
  else if Path.isTooLong path then .error .nameTooLong
  else if Path.isAbsolute path then .ok ([], Path.names path)
  else if (w.tree.get? w.here).isNone then .error .noEntry
  else .ok (w.here, Path.names path)

/-- The location of what is there at a path. -/
def locate (w : World) (path : String) : Except FsError Location := do
  let (start, names) ← w.route path
  w.tree.walk start names

/-- What stands at a path. -/
def find (w : World) (path : String) : Except FsError Entry := do
  let (start, names) ← w.route path
  w.tree.find start names

/-- Whether there is something at a path. -/
def contains (w : World) (path : String) : Bool :=
  match w.find path with
  | .ok _ => true
  | .error _ => false

/-- Whether there is a file at a path. -/
def hasFile (w : World) (path : String) : Bool :=
  match w.find path with
  | .ok (.file _) => true
  | _ => false

/-- Whether there is a directory at a path. -/
def hasDirectory (w : World) (path : String) : Bool :=
  match w.find path with
  | .ok .directory => true
  | _ => false

/-! ## Operations -/

/-- The content of the file at a path. -/
def read (w : World) (path : String) : Except FsError String := do
  let (start, names) ← w.route path
  w.tree.read start names

/-- The world with a file written at a path. -/
def write (w : World) (path content : String) : Except FsError World := do
  let (start, names) ← w.route path
  return { w with tree := ← w.tree.write start names content }

/-- The world with text added at the end of the file at a path. -/
def append (w : World) (path content : String) : Except FsError World := do
  let (start, names) ← w.route path
  return { w with tree := ← w.tree.append start names content }

/-- The world with the directories of a path, and whether all of them are
    there. -/
def makeDirs (w : World) (path : String) : Except FsError Unit × World :=
  match w.route path with
  | .error e => (.error e, w)
  | .ok (start, names) =>
    let (result, tree) := w.tree.makeDirs start names
    (result, { w with tree })

/-- Directories that every system has. -/
def systemDirs : List String :=
  ["/bin", "/boot", "/dev/pts", "/dev/shm", "/etc", "/home", "/lib", "/media", "/mnt", "/opt",
    "/root", "/run", "/sbin", "/srv", "/tmp", "/usr/bin", "/usr/lib", "/usr/local/bin",
    "/usr/sbin", "/usr/share", "/var/lib", "/var/log", "/var/tmp"]

/-- The world with some directories beside its own. -/
def withDirs (w : World) (paths : List String) : World :=
  paths.foldl (fun w path => (w.makeDirs path).2) w

/-- The world with a file written in a directory that is made where it is
    missing, and whether both succeeded. -/
def store (w : World) (path content : String) : Except FsError Unit × World :=
  match w.makeDirs (Path.dirname path) with
  | (.error e, w) => (.error e, w)
  | (.ok (), w) =>
    match w.write path content with
    | .error e => (.error e, w)
    | .ok w => (.ok (), w)

/-- What is copied from one path to another, and the location for it. -/
def copyPlan (w : World) (source target : String) : Except FsError (Entry × Location) := do
  checkPath "src" source
  checkPath "dest" target
  let e ← w.find source
  let (start, names) ← w.route target
  return (e, ← w.tree.fileLocation start names)

/-- The world after copying a file, and whether the copy succeeded. -/
def copy (w : World) (source target : String) : Except FsError Unit × World :=
  match w.copyPlan source target with
  | .error e => (.error e, w)
  | .ok (e, l) =>
    let (result, tree) := w.tree.copy e l
    (result, { w with tree })

/-- The world with all that is at a location moved to another one. -/
def relocate (w : World) (source target : Location) : World :=
  { w with tree := w.tree.move source target, here := Location.shift source target w.here }

/-- The world without what is at a location. -/
def remove (w : World) (l : Location) : World := { w with tree := w.tree.remove l }

end World

namespace Run

/-- A step that fails like the file system and then changes nothing. -/
def attempt {ε : Type} (fail : FsError → ε) (step : World → Except FsError World) : Run ε Unit :=
  do
    match step (← get) with
    | .ok w => set w
    | .error e => throw (fail e)

/-- A step that fails like the file system, and may do a part of its work. -/
def perform {ε : Type} (fail : FsError → ε) (step : World → Except FsError Unit × World) :
    Run ε Unit := do
  let (result, w) := step (← get)
  set w
  match result with
  | .ok () => return ()
  | .error e => throw (fail e)

end Run

end Crosspost
