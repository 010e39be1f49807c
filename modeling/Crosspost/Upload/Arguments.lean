/-
  The arguments of the command.

  * `ArgumentToken.scan` cuts an argument list into options and other arguments;
    `ArgumentToken.problem?` says what is wrong with one;
  * `Arguments.parse` reads an argument list and reports its first problem.
-/
import Crosspost.Text.Lines

namespace Crosspost

/-! ## Options -/

/-- The options that take a value. -/
inductive ValueOption where
  | outputDir
  | config
  | defineOption
  | story
  | description
  | file
  deriving DecidableEq, Repr

/-- The options that take none. -/
inductive SwitchOption where
  | keepOutDir
  | ignoreEmptyFiles
  | help
  deriving DecidableEq, Repr

/-- An option of the command. -/
inductive CommandOption where
  | value (option : ValueOption)
  | switch (option : SwitchOption)
  deriving DecidableEq, Repr

namespace CommandOption

/-- All options. -/
def all : List CommandOption :=
  [value .outputDir, value .config, value .defineOption, value .story, value .description,
    value .file, switch .keepOutDir, switch .ignoreEmptyFiles, switch .help]

/-- The long name of an option. -/
def long : CommandOption → String
  | value .outputDir => "output-dir"
  | value .config => "config"
  | value .defineOption => "define-option"
  | value .story => "story"
  | value .description => "description"
  | value .file => "file"
  | switch .keepOutDir => "keep-out-dir"
  | switch .ignoreEmptyFiles => "ignore-empty-files"
  | switch .help => "help"

/-- The letter that stands for an option. -/
def short : CommandOption → Char
  | value .outputDir => 'o'
  | value .config => 'c'
  | value .defineOption => 'D'
  | value .story => 's'
  | value .description => 'd'
  | value .file => 'f'
  | switch .keepOutDir => 'k'
  | switch .ignoreEmptyFiles => 'I'
  | switch .help => 'h'

/-- The option with a long name. -/
def ofLong? (name : List Char) : Option CommandOption := all.find? (·.long.toList == name)

/-- The option that a letter stands for. -/
def ofShort? (letter : Char) : Option CommandOption := all.find? (·.short == letter)

/-- Both names of an option. -/
def names (o : CommandOption) : String := .ofList ['-', o.short] ++ ", --" ++ o.long

end CommandOption

/-! ## Problems -/

/-- What is wrong with the arguments, by themselves or in the workspace. -/
inductive ArgumentProblem where
  /-- An option that does not exist, as it is written. -/
  | unknownOption (written : String)
  | missingValue (option : CommandOption)
  | needlessValue (option : CommandOption)
  /-- The value of an option, written apart, looks like an option. -/
  | ambiguousValue (option : CommandOption) (written : String)
  /-- An argument that belongs to no option. -/
  | unexpected (argument : String)
  | nothingToDo
  | outputIsFile (path : String)
  | noStoryFile (path : String)
  | noDescriptionFile (path : String)
  | noFile (path : String)
  | noConfigFile (path : String)
  deriving DecidableEq, Repr

/-- The text of a problem. -/
def ArgumentProblem.message : ArgumentProblem → String
  | unknownOption written => "Unknown option '" ++ written ++ "'"
  | missingValue option => "Option '" ++ option.names ++ " <value>' argument missing"
  | needlessValue option => "Option '" ++ option.names ++ "' does not take an argument"
  | ambiguousValue option written =>
    let usage := if (Chars.after? ['-', '-'] written.toList).isSome
      then "'" ++ written ++ "=-XYZ'"
      else "'--" ++ option.long ++ "=-XYZ' or '" ++ written ++ "-XYZ'"
    "Option '" ++ written ++ "' argument is ambiguous.\n" ++
      "Did you forget to specify the option argument for '" ++ written ++ "'?\n" ++
      "To specify an option argument starting with a dash use " ++ usage ++ "."
  | unexpected argument =>
    "Unexpected argument '" ++ argument ++
      "'. This command does not take positional arguments"
  | nothingToDo => "at least one of ( --story | --description | --file ) must be set"
  | outputIsFile path =>
    "--output-dir " ++ path ++
      " must be an existing directory or inexistent; found a file instead"
  | noStoryFile path => "--story " ++ path ++ " is not a valid file"
  | noDescriptionFile path => "--description " ++ path ++ " is not a valid file"
  | noFile path => "--file " ++ path ++ " is not a valid file"
  | noConfigFile path => "--config " ++ path ++ " must be a valid file"

/-! ## Tokens -/

/-- A part of an argument list. -/
inductive ArgumentToken where
  /-- An option as it is written, with its value, and whether the value stands
      in the same argument. -/
  | option (written : String) (option : Option CommandOption) (value : Option String)
      (inline : Bool)
  | other (argument : String)
  deriving DecidableEq, Repr

namespace ArgumentToken

/-- What a cluster of letters leaves to be read. -/
inductive ClusterEnd where
  | complete
  /-- The option of the last letter takes the next argument. -/
  | needsValue (written : String) (option : CommandOption)
  /-- A dash among the letters ends all options; the letters after it. -/
  | stop (letters : List Char)

/-- The options of a cluster of letters. An option with a value takes the rest
    of the cluster. -/
def readCluster : List Char → List ArgumentToken × ClusterEnd
  | [] => ([], .complete)
  | c :: cs =>
    if c = '-' then ([], .stop cs)
    else
      let written := String.ofList ['-', c]
      match CommandOption.ofShort? c, cs with
      | some (.value o), [] => ([], .needsValue written (.value o))
      | some (.value o), cs =>
        ([option written (some (.value o)) (some (.ofList cs)) true], .complete)
      | o, cs =>
        let (tokens, finish) := readCluster cs
        (option written o none false :: tokens, finish)

/-- Letters after the end of the options, each as an argument of its own; an
    option with a value keeps the rest. -/
def spread : List Char → List ArgumentToken
  | [] => []
  | c :: cs =>
    match CommandOption.ofShort? c with
    | some (.value _) => [other (.ofList ('-' :: c :: cs))]
    | _ => other (.ofList ['-', c]) :: spread cs

/-- The option of a long name that follows two dashes, with its value after the
    first `=`. A `=` right after the dashes belongs to the name, unless another
    one follows. -/
def readLong (body : List Char) : List Char × Option (List Char) :=
  if (body.drop 1).contains '=' then
    (body.takeWhile (· != '='), some ((body.dropWhile (· != '=')).drop 1))
  else (body, none)

/-- The tokens of an argument list. -/
def scan : List String → List ArgumentToken
  | [] => []
  | argument :: arguments =>
    match argument.toList with
    | ['-', '-'] => arguments.map other
    | '-' :: '-' :: body =>
      match readLong body with
      | (name, some value) =>
        option (.ofList ('-' :: '-' :: name)) (CommandOption.ofLong? name) (some (.ofList value))
          true :: scan arguments
      | (name, none) =>
        match CommandOption.ofLong? name, arguments with
        | some (.value o), value :: arguments =>
          option argument (some (.value o)) (some value) false :: scan arguments
        | o, arguments => option argument o none false :: scan arguments
    | '-' :: c :: cs =>
      let (tokens, finish) := readCluster (c :: cs)
      match finish, arguments with
      | .complete, arguments => tokens ++ scan arguments
      | .needsValue written o, value :: arguments =>
        tokens ++ option written (some o) (some value) false :: scan arguments
      | .needsValue written o, [] => tokens ++ [option written (some o) none false]
      | .stop letters, arguments => tokens ++ spread letters ++ arguments.map other
    | _ => other argument :: scan arguments

/-- Whether a value looks like an option. -/
def looksLikeOption (value : String) : Bool :=
  match value.toList with
  | '-' :: _ :: _ => true
  | _ => false

/-- What is wrong with a token. -/
def problem? : ArgumentToken → Option ArgumentProblem
  | other argument => some (.unexpected argument)
  | option written none _ _ => some (.unknownOption written)
  | option _ (some (.value o)) none _ => some (.missingValue (.value o))
  | option _ (some (.switch o)) (some _) _ => some (.needlessValue (.switch o))
  | option written (some (.value o)) (some value) false =>
    if looksLikeOption value then some (.ambiguousValue (.value o) written) else none
  | option _ (some (.value _)) (some _) true => none
  | option _ (some (.switch _)) none _ => none

end ArgumentToken

/-! ## Arguments -/

/-- What the command is asked to do. -/
structure Arguments where
  outputDir : String := "./out"
  config : String := "./config.json"
  defineOptions : List String := []
  story : Option String := none
  description : Option String := none
  files : List String := []
  keepOutDir : Bool := false
  ignoreEmptyFiles : Bool := false
  help : Bool := false
  deriving DecidableEq, Repr

namespace Arguments

/-- The arguments with the value of one more option. -/
def setValue (a : Arguments) (o : ValueOption) (value : String) : Arguments :=
  match o with
  | .outputDir => { a with outputDir := value }
  | .config => { a with config := value }
  | .defineOption => { a with defineOptions := a.defineOptions ++ [value] }
  | .story => { a with story := some value }
  | .description => { a with description := some value }
  | .file => { a with files := a.files ++ [value] }

/-- The arguments with one more switch set. -/
def setSwitch (a : Arguments) : SwitchOption → Arguments
  | .keepOutDir => { a with keepOutDir := true }
  | .ignoreEmptyFiles => { a with ignoreEmptyFiles := true }
  | .help => { a with help := true }

/-- The arguments with one more token. -/
def add (a : Arguments) : ArgumentToken → Arguments
  | .option _ (some (.value o)) (some value) _ => a.setValue o value
  | .option _ (some (.switch o)) _ _ => a.setSwitch o
  | _ => a

/-- The arguments of a list, or its first problem. -/
def parse (list : List String) : Except ArgumentProblem Arguments :=
  let tokens := ArgumentToken.scan list
  match tokens.findSome? ArgumentToken.problem? with
  | some problem => .error problem
  | none => .ok (tokens.foldl add {})

/-- The story to process; an empty path stands for none. -/
def storyPath? (a : Arguments) : Option String := a.story.filter (· != "")

/-- The description to process; an empty path stands for none. -/
def descriptionPath? (a : Arguments) : Option String := a.description.filter (· != "")

/-- Whether the user names are needed. -/
def needsUsernames (a : Arguments) : Bool := a.storyPath?.isSome || a.descriptionPath?.isSome

end Arguments

end Crosspost
