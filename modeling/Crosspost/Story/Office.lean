/-
  Office programs as document converters.

  An office program is found by its name on a search path and run once for each
  conversion; it prints the text of a document, or writes rich text to a file. What it
  makes of a document is left open.

  * `Office.Program` is any such program, and `Office.ProgramRun` what comes of a run;
  * `Office.start` finds the program for a run or says why there is none, and
    `Office.run` says why a run has failed;
  * `Office.converter` is the converter that runs it and puts the story's style
    into its rich text; `ConverterCall.arguments` are the arguments of a run.
-/
import Crosspost.Story.Converter
import Crosspost.Text.Quoted

namespace Crosspost

/-- The arguments with which an office program is run; the text to convert is
    in the directory `work`. -/
def ConverterCall.arguments (work : String) : ConverterCall → List String
  | extract path => ["--cat", path]
  | richText _ =>
    ["--convert-to", "rtf:Rich Text Format", "--outdir", work, Path.join work "story.txt"]

/-- Why a program is not started. -/
inductive StartError where
  | nullInProgram (program : String)
  | emptyProgram
  | nullInArgument (index : Nat) (argument : String)
  | system (program : String) (error : FsError)
  deriving DecidableEq, Repr

/-- The text of a reason. -/
def StartError.message : StartError → String
  | nullInProgram program =>
    "The argument 'file' must be a string without null bytes. Received " ++ Text.shown program
  | emptyProgram => "The argument 'file' cannot be empty. Received " ++ Text.shown ""
  | nullInArgument index argument =>
    "The argument 'args[" ++ toString index ++
      "]' must be a string without null bytes. Received " ++ Text.shown argument
  | system program error =>
    if error = .noEntry || error = .accessDenied then "spawn " ++ program ++ " " ++ error.code
    else "spawn " ++ error.code

namespace Office

/-- The name of an office program. -/
def programName : String := "libreoffice"

/-- What comes of a run of a program. -/
structure ProgramRun where
  stdout : String := ""
  stderr : String := ""
  /-- The rich text that a conversion writes, if it writes any. -/
  richText : Option String := none
  exitCode : Int := 0
  /-- Whether the run ends by a signal, as it does when it takes too long. -/
  killed : Bool := false

/-- What an office program does for a call in a world. -/
abbrev Program := ConverterCall → World → ProgramRun

/-- The directories that are searched when no others are set. -/
def usualPath : List String := ["/bin", "/usr/bin"]

/-- Where programs are looked for, and which there are. -/
structure Installation where
  /-- The programs that may be run, by their paths. -/
  programs : String → Option Program
  /-- The directories of the search path. -/
  path : List String := usualPath
  /-- The directory in which one for a text is made. -/
  temporary : String := "/tmp"

/-! ## Starting a program -/

/-- Whether a text holds a null character. -/
def hasNull (s : String) : Bool := s.toList.contains '\x00'

/-- Why a path at which there is no program cannot be run: a file of the world may not be
    run. -/
def fileError (w : World) (path : String) : FsError :=
  match w.locate path with
  | .ok _ => .accessDenied
  | .error e => e

/-- The program at a path. -/
def programAt (i : Installation) (w : World) (path : String) : Except FsError Program :=
  match i.programs path with
  | some p => .ok p
  | none => .error (fileError w path)

/-- The program with a name, looked for in some directories. A file that may not
    be run counts more than one that is missing; of the latter the last counts. -/
def search (i : Installation) (w : World) (name : String) (denied : Bool) (last : FsError) :
    List String → Except FsError Program
  | [] => .error (if denied then .accessDenied else last)
  | d :: ds =>
    match programAt i w (if d = "" then name else d ++ "/" ++ name) with
    | .ok p => .ok p
    | .error .accessDenied => search i w name true .accessDenied ds
    | .error .noEntry => search i w name denied .noEntry ds
    | .error .notDirectory => search i w name denied .notDirectory ds
    | .error e => .error e

/-- The program that a name or a path stands for. -/
def find (i : Installation) (w : World) (program : String) : Except FsError Program :=
  if program.toList.contains '/' then programAt i w program
  else if Path.isNameTooLong program then .error .nameTooLong
  else search i w program false .noEntry i.path

/-- The program for a run with some arguments. -/
def start (i : Installation) (w : World) (program : String) (arguments : List String) :
    Except StartError Program :=
  if hasNull program then .error (.nullInProgram program)
  else if program = "" then .error .emptyProgram
  else match arguments.zipIdx.find? fun a => hasNull a.1 with
    | some (argument, index) => .error (.nullInArgument index argument)
    | none => (find i w program).mapError (.system program)

/-! ## Running it -/

/-- The most bytes that a program may print on a stream. -/
def outputLimit : Nat := 64 * 1024 * 1024

/-- Why a run is broken off: it prints too much. -/
def ProgramRun.excess? (r : ProgramRun) : Option String :=
  let exceeds (printed : String) : Bool := outputLimit < printed.utf8ByteSize
  if exceeds r.stdout then some "stdout maxBuffer length exceeded"
  else if exceeds r.stderr then some "stderr maxBuffer length exceeded"
  else none

/-- What is kept of the error stream of a run. -/
def ProgramRun.keptStderr (r : ProgramRun) : String := .ofList (r.stderr.toList.take outputLimit)

/-- The failure of a run of a command, if it has failed. An exit code is taken modulo
    256, and a run that is broken off or killed has none. -/
def ProgramRun.failure? (command : String) (r : ProgramRun) : Option ConversionError :=
  let fail (cause : String) (exitCode : Option Int) : Option ConversionError :=
    some ⟨command ++ " failed: " ++ cause, exitCode, r.keptStderr⟩
  let cause := "Command failed: " ++ command ++ "\n" ++ r.stderr
  match r.excess? with
  | some excess => fail excess none
  | none =>
    if r.killed then fail cause none
    else if r.exitCode % 256 ≠ 0 then fail cause (some (r.exitCode % 256))
    else none

/-- What comes of a run of a program for a call, unless the run fails. -/
def run (i : Installation) (w : World) (program work : String) (call : ConverterCall) :
    Except ConvertError ProgramRun :=
  let arguments := call.arguments work
  let command := " ".intercalate (program :: arguments)
  match start i w program arguments with
  | .error e => .error (.conversion ⟨command ++ " failed: " ++ e.message, none, ""⟩)
  | .ok p =>
    let r := p call w
    match r.failure? command with
    | some e => .error (.conversion e)
    | none => .ok r

/-! ## The converter -/

/-- Fails when no directory for a text can be made. -/
def prepare (i : Installation) (w : World) : Except FsError Unit := do
  let work := Path.join i.temporary "gallery-upload-rtf-XXXXXX"
  let _ ← w.route (Path.join work "story.txt")
  match ← w.find (Path.dirname work) with
  | .directory => return ()
  | .file _ => throw .notDirectory

/-- The converter that runs a program. -/
def converter (i : Installation) (program work : String) : Converter where
  extractText w path := do
    let r ← run i w program work (.extract path)
    return Text.dropMark r.stdout
  convertToRichText w text styles := do
    (prepare i w).mapError .system
    let r ← run i w program work (.richText text)
    match r.richText with
    | none => throw (.system .noEntry)
    | some document => (StyleSheet.swap document styles.source styles.target).mapError .style

end Office

end Crosspost
