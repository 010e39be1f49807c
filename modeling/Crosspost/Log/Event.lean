/-
  Log events and their entries.

  * `LogEvent` is a message of some level with named values, of which a `LogValue`
    tells what JSON makes of them;
  * `LogEvent.entry` is its line in a log: time, level, run, message, and the
    values as a JSON object when there are any. There is none where a value cannot be
    written.
-/
import Crosspost.Json.Value

namespace Crosspost

/-- How much an event matters. -/
inductive LogLevel where
  | debug
  | info
  | warn
  | error
  deriving DecidableEq, Repr

namespace LogLevel

/-- The levels in ascending order. -/
def all : List LogLevel := [debug, info, warn, error]

/-- The place of a level in that order. -/
def rank : LogLevel → Nat
  | debug => 0
  | info => 1
  | warn => 2
  | error => 3

/-- The name of a level. -/
def name : LogLevel → String
  | debug => "debug"
  | info => "info"
  | warn => "warn"
  | error => "error"

/-- The level with a name. -/
def ofName? (name : String) : Option LogLevel := all.find? (·.name == name)

/-- The name of a level in an entry, five characters wide. -/
def label : LogLevel → String
  | debug => "DEBUG"
  | info => "INFO "
  | warn => "WARN "
  | error => "ERROR"

end LogLevel

/-! ## Values -/

/-- A value of an event, by what JSON makes of it. -/
inductive LogValue where
  | json (value : Json)
  /-- Something that JSON leaves out, such as a value that is not there. -/
  | missing
  /-- A function is left out, too. But one with the name `toJSON` is asked what to write
      in the place of all the values, and answers with another value. -/
  | function (answer : LogValue)
  /-- A value that cannot be written, such as one that holds itself, and the error that
      it makes. -/
  | unwritable (error : String)

namespace LogValue

/-- What is written for a value: nothing where it is left out. -/
def written : LogValue → Except String (Option Json)
  | json value => .ok (some value)
  | missing | function _ => .ok none
  | unwritable error => .error error

/-- Whether a value can be written, whatever its name. -/
def isWritable : LogValue → Bool
  | json _ | missing => true
  | function answer => answer.isWritable
  | unwritable _ => false

end LogValue

/-- Named values of an event, as they are set one after another. -/
abbrev LogContext := List (CodePoints × LogValue)

namespace LogContext

/-- Values that are JSON. -/
def ofJson (fields : List (CodePoints × Json)) : LogContext := fields.map fun f => (f.1, .json f.2)

/-- What is written of some values, in their order. -/
def entries : LogContext → Except String (List (CodePoints × Json))
  | [] => .ok []
  | (key, value) :: context => do
    let first ← value.written
    let others ← entries context
    .ok ((first.map (key, ·)).toList ++ others)

/-- The name of a function that answers for all values. -/
def answerKey : CodePoints := CodePoints.ofString "toJSON"

/-- The text of some values: that of an object, or that of the answer for it. -/
def text (context : LogContext) : Except String String :=
  let fields := Fields.ofEntries context
  match fields.lookup answerKey with
  | some (.function answer) => do .ok (((← answer.written).map Json.render).getD "undefined")
  | _ => do .ok (Json.braces ((← entries fields).map fun f => (f.1, f.2.render)))

/-- Whether all values can be written. -/
def isWritable (context : LogContext) : Bool := context.all (·.2.isWritable)

end LogContext

/-! ## Events -/

/-- Something to log. -/
structure LogEvent where
  level : LogLevel
  message : String
  context : LogContext := []

/-- When an entry is written, and in which run. -/
structure Stamp where
  time : String
  run : Option String := none

/-- The line of an event in a log. -/
def LogEvent.entry (stamp : Stamp) (e : LogEvent) : Except String String :=
  let run := stamp.run.getD "no-run-id"
  let text := "[" ++ stamp.time ++ "] [" ++ e.level.label ++ "] [" ++ run ++ "] " ++ e.message
  if e.context.isEmpty then .ok text else do .ok (text ++ " " ++ (← e.context.text))

end Crosspost
