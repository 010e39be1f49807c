/-
  The loader that the program runs with: environment variables from a file.

  The command takes its loader as a parameter, and no theorem about the command is
  about this one in particular.

  * `EnvSource.of` takes the file, its encoding and whether it counts before the
    variables that are set, from variables and arguments of their own;
  * `EnvSource.load` adds the variables of the file, or those of an encrypted file
    that a key is given for, and `EnvSource.loader` is the loader.
-/
import Crosspost.Config.EnvLoader
import Crosspost.EnvFile.Vault

namespace Crosspost

/-- A file of environment variables. -/
structure EnvSource where
  /-- The path of the file, if it is not the usual one. -/
  path : Option String := none
  /-- The name of the encoding of the file, if it is not the usual one. -/
  encoding : Option String := none
  /-- Whether the file sets variables that are set already. -/
  overrides : Bool := false
  /-- Whether every step is reported. -/
  verbose : Bool := false
  /-- Keys of an encrypted file. -/
  keys : Option String := none
  deriving DecidableEq, Repr

namespace EnvSource

/-- The variables that the file is found by. -/
def variableNames : List String :=
  ["DOTENV_CONFIG_PATH", "DOTENV_CONFIG_ENCODING", "DOTENV_CONFIG_OVERRIDE",
    "DOTENV_CONFIG_DEBUG", "DOTENV_CONFIG_DOTENV_KEY", "DOTENV_KEY", "HOME"]

/-- The last value given to an option by arguments of the form
    `dotenv_config_option=value`, where the value is a line that is not empty. -/
def argument? (arguments : List String) (option : String) : Option String :=
  let values := arguments.filterMap fun argument =>
    Chars.after? ("dotenv_config_" ++ option ++ "=").toList argument.toList
  let lines := values.filter fun value => !value.isEmpty && !value.any Chars.endsLine
  lines.getLast?.map String.ofList

/-- The value of an option, by an argument or by the variable
    `DOTENV_CONFIG_OPTION`; an empty one counts as none. -/
def option? (env : Variables) (arguments : List String) (option key : String) : Option String :=
  (argument? arguments option).or (env.value? ("DOTENV_CONFIG_" ++ key))

/-- The file that variables and arguments ask for. -/
def of (env : Variables) (arguments : List String) : EnvSource where
  path := option? env arguments "path" "PATH"
  encoding := option? env arguments "encoding" "ENCODING"
  overrides := (option? env arguments "override" "OVERRIDE").isSome
  verbose := (option? env arguments "debug" "DEBUG").isSome
  keys := option? env arguments "DOTENV_KEY" "DOTENV_KEY"

/-! ## Reading the file -/

/-- The directory of the user who has no other one. -/
def usualHome : String := "/root"

/-- A path in which a tilde at the start stands for the home directory. -/
def expandHome (env : Variables) (path : String) : String :=
  match path.toList with
  | '~' :: rest => Path.join ((env.get? "HOME").getD usualHome) (.ofList rest)
  | _ => path

/-- The path of the file as it is opened; the usual file has an absolute one. -/
def fullPath (source : EnvSource) (env : Variables) (w : World) : String :=
  match source.path with
  | none => Path.resolve w.root ".env"
  | some path => expandHome env path

/-- Why the file sets nothing. -/
inductive Problem where
  | encoding (name : String)
  | file (path : String) (error : FsError)
  /-- The encoding stands for bytes as they are. -/
  | bytes (name : String)
  deriving DecidableEq, Repr

/-- What an error of the file system is called. -/
def errorText : FsError → String
  | .noEntry => "no such file or directory"
  | .alreadyExists => "file already exists"
  | .notDirectory => "not a directory"
  | .isDirectory => "illegal operation on a directory"
  | .nameTooLong => "name too long"
  | .accessDenied => "permission denied"
  | .busy => "resource busy or locked"
  | .nullCharacter _ _ => "invalid argument"

/-- The text of a problem. -/
def Problem.message : Problem → String
  | encoding name => "The argument 'encoding' is invalid encoding. Received " ++ Text.shown name
  | file path error =>
    let place := if error = .isDirectory then "read" else "open '" ++ path ++ "'"
    error.message?.getD (error.code ++ ": " ++ errorText error ++ ", " ++ place)
  | bytes name => "Unknown encoding: " ++ name

/-- How a file with an encoding of some name is read: in an encoding, or, without
    one, as bytes. -/
def encodingOf (name : String) : Except Problem (Option Encoding) :=
  match Encoding.ofName? name with
  | some encoding => .ok (some encoding)
  | none => if name = "buffer" then .ok none else .error (.encoding name)

/-- The text of the file. -/
def text (source : EnvSource) (env : Variables) (w : World) : Except Problem String := do
  let name := source.encoding.getD "utf8"
  let encoding ← encodingOf name
  let path := source.fullPath env w
  let content ← (w.read path).mapError (.file path)
  match encoding with
  | some encoding => return encoding.reread content
  | none => throw (.bytes name)

/-- The variables that the file sets. -/
def assigned (source : EnvSource) (env : Variables) (w : World) : Variables :=
  match source.text env w with
  | .ok text => EnvFile.parse text
  | .error _ => []

/-! ## Reports -/

/-- The name that reports start with. -/
def reporter : String := "[dotenv@16.6.1]"

/-- The line for a variable of the file that is set already. -/
def clash (overrides : Bool) (key : String) : String :=
  reporter ++ "[DEBUG] \"" ++ key ++ "\" is already defined and " ++
    (if overrides then "WAS overwritten" else "was NOT overwritten")

/-- The lines about the text of the file. -/
def textLines (source : EnvSource) (env : Variables) (w : World) : List String :=
  (if source.encoding.isSome then [] else
    [reporter ++ "[DEBUG] No encoding is specified. UTF-8 is used by default"]) ++
  (match source.text env w with
    | .ok _ => []
    | .error e =>
      [reporter ++ "[DEBUG] Failed to load " ++ source.fullPath env w ++ " " ++ e.message])

/-- The line that ends the reading of the file. -/
def doneLine (source : EnvSource) (env : Variables) (w : World) : String :=
  reporter ++ " injecting env (" ++ toString (source.assigned env w).length ++ ") from " ++
    Path.relative w.root (source.fullPath env w)

/-! ## Loading -/

/-- A state of the loading with further lines, if steps are reported. -/
def note (source : EnvSource) (lines : List String) (l : Loading) : Loading :=
  if source.verbose then { l with lines := l.lines ++ lines } else l

/-- A state of the loading with further variables. -/
def add (source : EnvSource) (assigned : Variables) (l : Loading) : Loading :=
  let clashes := (EnvFile.keys assigned).filter fun key => (l.env.lookup key).isSome
  source.note (clashes.map (clash source.overrides))
    { l with env := EnvFile.extend source.overrides l.env assigned }

/-- Adds the variables of the file. -/
def loadFile (source : EnvSource) (w : World) (l : Loading) : Loading :=
  source.note [source.doneLine l.env w]
    (source.add (source.assigned l.env w) (source.note (source.textLines l.env w) l))

/-- The keys of the encrypted file, by an option or else by a variable. -/
def vaultKeys? (source : EnvSource) (env : Variables) : Option String :=
  source.keys.or (env.value? "DOTENV_KEY")

/-- The path of the encrypted file as it is given. -/
def vaultName (source : EnvSource) : String :=
  match source.path with
  | none => ".env.vault"
  | some path => if ".vault".toList.isSuffixOf path.toList then path else path ++ ".vault"

/-- The path of the encrypted file as it is opened; the usual file has an absolute
    one. -/
def vaultPath (source : EnvSource) (w : World) : String :=
  if source.path.isNone then Path.resolve w.root source.vaultName else source.vaultName

/-- Adds the variables of the encrypted file, and those that it holds. -/
def loadVault (source : EnvSource) (w : World) (l : Loading) : Loading :=
  let vault := { source with path := some (source.vaultPath w) }
  let entries := vault.assigned l.env w
  let l := vault.loadFile w (source.note [reporter ++ " Loading env from encrypted .env.vault"] l)
  match Vault.open? entries ((source.vaultKeys? l.env).getD "") with
  | some text => source.add (EnvFile.parse text) l
  | none => { l with completed := false }

/-- What is printed when there is no encrypted file. -/
def missingVault : String :=
  reporter ++ "[WARN] You set DOTENV_KEY but you are missing a .env.vault file at null. " ++
    "Did you forget to build it?"

/-- What comes of reading variables beside those that are set. -/
def load (source : EnvSource) (env : Variables) (w : World) : Loading :=
  if (source.vaultKeys? env).isNone then source.loadFile w { env }
  else if w.contains (source.vaultPath w) then source.loadVault w { env }
  else source.loadFile w { env, lines := [missingVault] }

/-- The loader for the file that variables and arguments ask for. -/
def loader : EnvLoader := fun env arguments w => (of env arguments).load env w

end EnvSource

end Crosspost
