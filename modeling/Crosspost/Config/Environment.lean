/-
  Settings from environment variables.

  * `Variables.put` sets a variable, of which the system keeps no more than what
    comes before a null character, and `Variables.get?` looks one up;
  * `Variables.read`, `Variables.choice` and `Variables.flag` read one variable; an
    unset or empty one stands for the default;
  * `AppConfig.load` reads the settings of the program.
-/
import Crosspost.Config.Member
import Crosspost.Json.Fields
import Crosspost.Log.Event
import Crosspost.Text.Lines
import Crosspost.Text.LowerCase

namespace Crosspost

/-- A setting that cannot be used. -/
inductive ConfigError where
  | invalidChoice (key value : String) (choices : List String)
  | invalidFlag (key value : String)
  | blankAppName
  /-- What is held under the name of a variable is no text. -/
  | notText
  deriving DecidableEq, Repr

/-- The text of an error. -/
def ConfigError.message : ConfigError → String
  | invalidChoice key value choices =>
    "Invalid " ++ key ++ ": " ++ value ++ ". Must be one of: " ++ ", ".intercalate choices ++ "."
  | invalidFlag key value =>
    "Environment variable " ++ key ++ " must be a boolean (true/false/1/0/yes/no), got: " ++ value
  | blankAppName => "APP_NAME must not be blank."
  | notText => "value.toLowerCase is not a function"

/-- Environment variables and their values. -/
abbrev Variables := List (String × String)

namespace Variables

/-- The part of a name or a value that the system keeps. -/
def kept (s : String) : String := .ofList (s.toList.takeWhile (· != '\x00'))

/-- The variables with one of them set. A name that is empty or holds an equals
    sign stands for none. -/
def put (env : Variables) (key value : String) : Variables :=
  let key := kept key
  if key = "" || key.toList.contains '=' then env else Fields.put key (kept value) env

/-- The variables of lines `name=value`, given as pairs. A name ends at the first
    equals sign, and an empty one stands for none. -/
def ofLines (lines : List (String × String)) : Variables :=
  lines.filterMap fun line =>
    match (line.1 ++ "=" ++ line.2).toList.span (· != '=') with
    | ([], _) => none
    | (name, value) => some (.ofList name, .ofList (value.drop 1))

/-- The value of a variable: what follows its name and an equals sign in the first
    line `name=value` that starts with them. -/
def get? (env : Variables) (key : String) : Option String :=
  env.findSome? fun v =>
    (Chars.after? (kept key ++ "=").toList (v.1 ++ "=" ++ v.2).toList).map String.ofList

/-- The value of a variable that is set and not empty. -/
def value? (env : Variables) (key : String) : Option String := (env.get? key).filter (· != "")

/-- What is held under the name of a variable, unless it is unset or empty. -/
def held? (env : Variables) (key : String) : Option (Held String) :=
  (Held.find? (env.get? key) key).filter (· != .own "")

/-- What is held under the name of a variable. -/
def read (env : Variables) (key default : String) : Held String :=
  (env.held? key).getD (.own default)

/-- The text of a variable. -/
def text (env : Variables) (key default : String) : String :=
  match env.read key default with
  | .own value => value
  | .member m => m.text

/-- The choice whose spelling is the lower-case form of a variable. -/
def choice (env : Variables) (key : String) (choices : List String) (default : String) :
    Except ConfigError String :=
  match env.held? key with
  | none => .ok default
  | some (.member _) => .error .notText
  | some (.own value) =>
    match choices.find? (· == Text.lower value) with
    | some choice => .ok choice
    | none => .error (.invalidChoice key value choices)

/-- The truth value that a variable spells, in any letter case. -/
def flag (env : Variables) (key : String) (default : Bool) : Except ConfigError Bool :=
  match env.held? key with
  | none => .ok default
  | some (.member _) => .error .notText
  | some (.own value) =>
    if ["true", "1", "yes"].contains (Text.lower value) then .ok true
    else if ["false", "0", "no"].contains (Text.lower value) then .ok false
    else .error (.invalidFlag key value)

end Variables

/-- The settings of the program. -/
structure AppConfig where
  /-- Where the program runs: development, production or test. -/
  environment : String
  logLevel : LogLevel
  logDir : String
  logToFile : Bool
  /-- The name that log files take. -/
  appName : String

namespace AppConfig

/-- The names of the environments that the program runs in. -/
def environments : List String := ["development", "production", "test"]

/-- The variables that the settings come from. -/
def variableNames : List String := ["APP_NAME", "NODE_ENV", "LOG_LEVEL", "LOG_DIR", "LOG_TO_FILE"]

/-- The settings that the variables give. -/
def load (env : Variables) : Except ConfigError AppConfig := do
  let appName := env.text "APP_NAME" "gallery-upload"
  if Text.isBlank appName then throw .blankAppName
  let environment ← env.choice "NODE_ENV" environments "development"
  let level ← env.choice "LOG_LEVEL" (LogLevel.all.map (·.name)) "info"
  let logToFile ← env.flag "LOG_TO_FILE" false
  return {
    environment, logToFile, appName
    logLevel := (LogLevel.ofName? level).getD .info
    logDir := env.text "LOG_DIR" "output/logs" }

end AppConfig

end Crosspost
