/-
  The program.

  The command is worked out on a copy of the files that it may use: they are read
  from the disk, `Command.report` says what becomes of them, and the changes are then
  made on the disk. Paths lead to places below the working directory, and no office
  program is run.

  * `Snapshot.take` reads files, and `Snapshot.commit` makes the changes;
  * `main` runs the command with the arguments of the program.
-/
import Crosspost.Command
import Crosspost.EnvFile.Source
import Crosspost.RunId
import Std.Time.DateTime.Timestamp

namespace Crosspost

/-- What was found on the disk. A file that holds no text has a text of its own
    in the tree, which stands for its bytes. -/
structure Snapshot where
  tree : Tree := .empty
  bytes : List (String × ByteArray) := []

namespace Snapshot

/-- The name of the entry that stands for whatever else a directory holds; no
    file on a disk has it. -/
def others : String := "\x00"

/-- The path of a location. -/
def path (l : Location) : String := "/".intercalate l

/-- The snapshot with a file. -/
def addFile (s : Snapshot) (l : Location) (content : ByteArray) : Snapshot :=
  match String.fromUTF8? content with
  | some text => { s with tree := s.tree.set l (.file text) }
  | none =>
    let text := others ++ path l
    { tree := s.tree.set l (.file text), bytes := (text, content) :: s.bytes }

/-- The snapshot with a directory. -/
def addDirectory (s : Snapshot) (l : Location) : Snapshot :=
  { s with tree := (s.tree.set l .directory).set (l ++ [others]) (.file "") }

/-- The bytes behind a text of the tree. -/
def contentOf (s : Snapshot) (text : String) : ByteArray :=
  (s.bytes.lookup text).getD text.toUTF8

/-- The snapshot with what the disk has at a location. -/
def look (s : Snapshot) (l : Location) : IO Snapshot := do
  try return s.addFile l (← IO.FS.readBinFile (path l))
  catch _ =>
    try
      let _ ← IO.FS.Handle.mk (path l ++ "/.") .read
      return s.addDirectory l
    catch _ => return s

/-- The locations on the way to a path, from the working directory on. -/
def wayTo (path : String) : List Location :=
  let l := Path.resolveNames false path
  (List.range l.length).map fun n => l.take (n + 1)

/-- The snapshot with what the disk has at some paths and on the way to them. -/
def take (s : Snapshot) (paths : List String) : IO Snapshot :=
  (paths.flatMap wayTo).foldlM look s

/-- The directories that were replaced by others or removed. -/
def replaced (s : Snapshot) (after : Tree) : List Location :=
  (s.tree.entries.map (·.1)).filter fun l =>
    (s.tree.get? (l ++ [others])).isSome && (after.get? (l ++ [others])).isNone

/-- Whether a location holds the same as before, in the same directory. -/
def isKept (s : Snapshot) (after : Tree) (l : Location) : Bool :=
  s.tree.get? l == after.get? l && !(s.replaced after).any (·.isPrefixOf l)

/-- Makes the changes that lead to a tree. -/
def commit (s : Snapshot) (after : Tree) : IO Unit := do
  for l in s.replaced after do
    try IO.FS.removeDirAll (path l) catch _ => pure ()
  for (l, e) in s.tree.entries do
    if let .file _ := e then
      if !s.isKept after l then
        try IO.FS.removeFile (path l) catch _ => pure ()
  for (l, e) in after.entries do
    match e with
    | .directory => IO.FS.createDirAll (path l)
    | .file text => if !s.isKept after l then IO.FS.writeBinFile (path l) (s.contentOf text)

end Snapshot

/-- The paths that an argument list names, and that of the log. -/
def Command.Invocation.paths (i : Command.Invocation) (w : World) : List String :=
  let named := match Arguments.parse i.arguments with
    | .ok a => a.outputDir :: a.config :: a.story.toList ++ a.description.toList ++ a.files
    | .error _ => []
  let log := match AppConfig.load (i.loading w).env with
    | .ok config => [Path.join config.logDir (config.appName ++ ".log")]
    | .error _ => []
  named ++ log

/-- The command as the program is started: its arguments, the variables that it
    reads, the loader for a file of them, the time and a new run id. -/
def Command.Invocation.start (arguments : List String) : IO Command.Invocation := do
  let env ← (AppConfig.variableNames ++ EnvSource.variableNames).filterMapM fun key => do
    return (← IO.getEnv key).map fun value => (key, value)
  let moment := (← Std.Time.Timestamp.now).toMillisecondsSinceUnixEpoch.val
  let bytes ← IO.getRandomBytes 3
  let runId := (RunId.ofTime? moment (bytes.toList.map (·.toNat))).getD ""
  let times := fun _ => Calendar.stamp moment
  return { arguments, env, load := EnvSource.loader, work := "", times, runId }

end Crosspost

open Crosspost in
/-- Runs the command in the working directory. -/
def main (arguments : List String) : IO UInt32 := do
  let root := toString (← IO.currentDir)
  let invocation ← Command.Invocation.start arguments
  let source := EnvSource.of invocation.env arguments
  let settings ← Snapshot.take {} [source.path.getD ".env", source.vaultName]
  let snapshot ← settings.take (invocation.paths (.ofTree root settings.tree))
  let report := Command.report invocation (.ofTree root snapshot.tree)
  snapshot.commit report.world.workspace
  IO.print report.stdout
  IO.eprint (report.stderr.getD "An error that has no text stopped the command.\n")
  return report.exitCode.toUInt32
