/-
  Loggers.

  A logger passes on events from some level on: to the log, and where it is told
  so to the error stream and to a file.

  * `Logger.create` makes a logger with the options that are given, and the directory of
    its file;
  * `Logger.child` adds values to every event of a logger;
  * `Logger.log` logs an event, which fails where a value of it cannot be written;
  * `Session.perform` is a call on one of the loggers made so far.
-/
import Crosspost.Workspace.World

namespace Crosspost

/-- What a logger does with events. -/
structure Logger where
  /-- The least level that it passes on. -/
  level : LogLevel := .info
  /-- Whether entries go to the error stream. -/
  console : Bool := true
  /-- The file that entries are added to. -/
  file : Option String := none
  /-- The values of every event. -/
  bindings : LogContext := []

namespace Logger

/-- The logger whose events have more values; they count before those of the
    logger. -/
def child (l : Logger) (bindings : LogContext) : Logger :=
  { l with bindings := Fields.putAll (Fields.putAll [] l.bindings) bindings }

/-- The entry of an event, with the values of the logger. -/
def entry (l : Logger) (stamp : Stamp) (e : LogEvent) : Except String String :=
  { e with context := Fields.putAll (Fields.putAll [] l.bindings) e.context }.entry stamp

/-- What stands on the error stream when an entry cannot be added to the file;
    the wording of the operating system is left open. -/
def appendFailure : String := "Failed to write to log file: <os error>"

/-- The world with a line on the error stream. -/
def print (line : String) (w : World) : World := { w with console := w.console ++ [line] }

/-- The world with an entry in the file of a logger. -/
def store (l : Logger) (entry : String) (w : World) : World :=
  match l.file with
  | none => w
  | some path =>
    match w.append path (entry ++ "\n") with
    | .ok w => w
    | .error _ => print appendFailure w

/-- The world with an entry in all places of a logger. -/
def receive (l : Logger) (level : LogLevel) (entry : String) (w : World) : World :=
  let w := l.store entry (if l.console then print entry w else w)
  { w with entries := w.entries ++ [(level, entry)] }

/-- The world after an event, and the error if it has no entry. -/
def log (l : Logger) (stamp : Stamp) (e : LogEvent) (w : World) : Except String Unit × World :=
  if e.level.rank < l.level.rank then (.ok (), w)
  else match l.entry stamp e with
    | .error error => (.error error, w)
    | .ok entry => (.ok (), l.receive e.level entry w)

end Logger

/-! ## New loggers -/

/-- What a logger is made with. -/
structure LoggerOptions where
  level : LogLevel := .info
  logDir : String := "output/logs"
  logFile : String := "gallery-upload.log"
  console : Bool := true
  /-- Whether there is a file. -/
  file : Bool := false

namespace LoggerOptions

/-- The logger with some options. -/
def logger (o : LoggerOptions) : Logger where
  level := o.level
  console := o.console
  file := if o.file then some (Path.join o.logDir o.logFile) else none

/-- The world with the directory of the file, if there is one; it is made if it is
    missing. -/
def makeDirectory (o : LoggerOptions) (w : World) : Except FsError Unit × World :=
  if o.file && !w.contains o.logDir then w.makeDirs o.logDir else (.ok (), w)

end LoggerOptions

/-- Options of a logger as they are given: each may be left out, and may also be given
    without a value. -/
structure GivenOptions where
  level : Option (Option LogLevel) := none
  logDir : Option (Option String) := none
  logFile : Option (Option String) := none
  console : Option (Option Bool) := none
  file : Option (Option Bool) := none

/-- The options that are meant. Without a level nothing is held back, and the parts of the
    path must have values, whether there is a file or not. -/
def GivenOptions.settled? (o : GivenOptions) : Option LoggerOptions := do
  let usual : LoggerOptions := {}
  let logDir ← o.logDir.getD usual.logDir
  let logFile ← o.logFile.getD usual.logFile
  return {
    level := (o.level.getD usual.level).getD .debug, logDir, logFile
    console := (o.console.getD usual.console).getD false
    file := (o.file.getD usual.file).getD false }

/-- Why no logger can be made. -/
inductive LoggerError where
  /-- A part of the path has no value. -/
  | noPath
  | system (error : FsError)

/-- A logger with the options that are given, and the world with the directory of its
    file. -/
def Logger.create (o : GivenOptions) (w : World) : Except LoggerError Logger × World :=
  match o.settled? with
  | none => (.error .noPath, w)
  | some settled =>
    let (made, w) := settled.makeDirectory w
    ((made.map fun _ => settled.logger).mapError .system, w)

/-! ## Sessions -/

/-- A call on one of the loggers made so far. -/
inductive LoggerCall where
  | child (logger : Nat) (bindings : LogContext)
  | log (logger : Nat) (stamp : Stamp) (event : LogEvent)

/-- The loggers made so far, the world, and how the events that were logged ended. -/
structure Session where
  loggers : List Logger
  world : World
  outcomes : List (Except String Unit) := []

namespace Session

/-- The session that starts with a logger. -/
def start (l : Logger) (w : World) : Session := { loggers := [l], world := w }

/-- The session after a call. A call on a logger that is not there does nothing. -/
def perform (s : Session) : LoggerCall → Session
  | .child i bindings => match s.loggers[i]? with
    | some l => { s with loggers := s.loggers ++ [l.child bindings] }
    | none => s
  | .log i stamp event => match s.loggers[i]? with
    | some l =>
      let (outcome, world) := l.log stamp event s.world
      { s with world, outcomes := s.outcomes ++ [outcome] }
    | none => s

/-- The session after some calls. -/
def performAll (s : Session) (calls : List LoggerCall) : Session := calls.foldl perform s

end Session

end Crosspost
