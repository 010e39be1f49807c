/-
  The command.

  * `Command.Invocation.run` parses the arguments, reads the settings and makes the
    files;
  * `Command.report` is the outcome: exit code, output, and the lines on the error
    stream, or a crash for an error that has no text.
-/
import Crosspost.Config.EnvLoader
import Crosspost.Story.Office
import Crosspost.Upload.Check
import Crosspost.Upload.Run

namespace Crosspost.Command

/-- The text of the option `--help`. -/
def help : String :=
"
Usage: gallery-upload [options]

Generate upload-ready descriptions and story files for each configured gallery.
At least one of --story, --description or --file is required.

Options:
  -o, --output-dir <dir>     Output directory (default: ./out)
  -c, --config <path>        Username configuration JSON (default: ./config.json)
  -D, --define-option <opt>  Flag for [if=define==…] conditions (repeatable)
  -s, --story <path>         Story document (any format LibreOffice reads)
  -d, --description <path>   Tagged description (.txt/.md, or any LibreOffice format)
  -f, --file <path>          Extra file to copy to the output (repeatable)
  -k, --keep-out-dir         Keep existing output directory contents
                             (a failure may then leave partial files behind)
  -I, --ignore-empty-files   Do not fail if the story or description is empty
  -h, --help                 Show this help message
"

/-- What the command is started with. -/
structure Invocation where
  arguments : List String
  env : Variables
  /-- What adds further variables. -/
  load : EnvLoader
  /-- The programs that there are, by their paths. -/
  programs : String → Option Office.Program := fun _ => none
  /-- The directory in which it converts texts. -/
  work : String
  /-- The time that each entry of the log shows. -/
  times : Nat → String
  runId : String

namespace Invocation

/-- The variables of an invocation, with those that its loader adds. -/
def loading (i : Invocation) (w : World) : Loading := i.load i.env i.arguments w

/-- The directory for files that do not stay, by the first of some variables that
    is set. -/
def temporary (env : Variables) : String :=
  match ["TMPDIR", "TMP", "TEMP"].findSome? env.value? with
  | none => "/tmp"
  | some path =>
    let cs := path.toList
    .ofList (if 1 < cs.length && cs.getLast? = some '/' then cs.dropLast else cs)

/-- Where the office program is looked for, with some variables set. -/
def installation (i : Invocation) (env : Variables) : Office.Installation where
  programs := i.programs
  path := match env.lookup "PATH" with
    | some path => Text.splitOn ':' path
    | none => Office.usualPath
  temporary := temporary env

/-- The options of the logger of a run with some settings. -/
def loggerOptions (config : AppConfig) : LoggerOptions where
  level := config.logLevel
  logDir := config.logDir
  logFile := config.appName ++ ".log"
  file := config.logToFile

/-- What a run with some settings works with. -/
def setup (i : Invocation) (env : Variables) (config : AppConfig) : Setup where
  converter := Office.converter (i.installation env) Office.programName i.work
  logger := (loggerOptions config).logger
  clock n := ⟨i.times n, some i.runId⟩

/-- What a run with some variables works with, once its start has been logged. -/
def prepare (i : Invocation) (env : Variables) : Run Failure Setup := do
  match AppConfig.load env with
  | .ok config =>
    Run.perform .system (loggerOptions config).makeDirectory
    let setup := i.setup env config
    setup.log .info "Upload run starting"
      [("runId", .string i.runId), ("env", .string config.environment)]
    return setup
  | .error e => throw (.config e)

/-- Makes the files that an argument list asks for, with some variables set; the
    result is the output. -/
def upload (i : Invocation) (env : Variables) (a : Arguments) : Run Failure String := do
  match a.check (← get) with
  | [] =>
    let summary ← Upload.run (← i.prepare env) a
    return String.join (summary.files.map (· ++ "\n"))
  | problems => throw (.arguments problems)

/-- Does what the command is asked for, with some variables set; the result is the
    output. -/
def run (i : Invocation) (env : Variables) : Run Failure String := do
  match Arguments.parse i.arguments with
  | .error problem => throw (.arguments [problem])
  | .ok a => if a.help then return help ++ "\n" else i.upload env a

end Invocation

/-- How the command ends. -/
structure Report where
  exitCode : Nat
  stdout : String
  /-- The text on the error stream; nothing after a crash. -/
  stderr : Option String
  world : World

/-- Lines of text. -/
def lines (texts : List String) : String := String.join (texts.map (· ++ "\n"))

/-- What the command does in a workspace. -/
def report (i : Invocation) (w : World) : Report :=
  let loading := i.loading w
  let notes := lines loading.lines
  if loading.completed then
    match (i.run loading.env).run.run w with
    | (.ok output, w) => ⟨0, notes ++ output, some (lines w.console), w⟩
    | (.error failure, w) =>
      let stderr := (failure.diagnostic?.bind Diagnostic.described?).map fun text =>
        lines (w.console ++ ["Error: " ++ text])
      ⟨1, notes, stderr, w⟩
  else ⟨1, notes, none, w⟩

end Crosspost.Command
