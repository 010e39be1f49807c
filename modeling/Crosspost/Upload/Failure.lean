/-
  Everything that can go wrong in a run.

  * `Failure` lists the causes; `Failure.diagnostic?` is what there is to tell
    about one, nothing for errors of the file system;
  * `Diagnostic.described?` is the text for the user, nothing for errors that no
    input should cause.
-/
import Crosspost.Config.Environment
import Crosspost.Config.UsernameFile
import Crosspost.Description.Flags
import Crosspost.Description.Generated
import Crosspost.Story.Converter
import Crosspost.Upload.Arguments

namespace Crosspost

/-- Why a story cannot be processed. -/
inductive StoryError where
  | noFormat
  | emptyStory (path : String)
  deriving DecidableEq, Repr

/-- The text of an error. -/
def StoryError.message : StoryError → String
  | noFormat => "Invalid configuration for story parsing: no configured website accepts stories"
  | emptyStory path => "Story processing returned empty file: " ++ path

/-- A description without text. -/
structure EmptySource where
  path : String
  deriving DecidableEq, Repr

/-- The text of the error. -/
def EmptySource.message (e : EmptySource) : String :=
  "Description processing returned empty file: " ++ e.path

/-- Why a run fails. -/
inductive Failure where
  | arguments (problems : List ArgumentProblem)
  | config (error : ConfigError)
  | usernames (error : UsernameError)
  | flags (error : FlagError)
  | parse (error : ParseError)
  | render (error : RenderError)
  | story (error : StoryError)
  | emptySource (error : EmptySource)
  | conversion (error : ConversionError)
  | style (error : StyleError)
  | system (error : FsError)

namespace Failure

/-- The failure behind a converter without an answer. -/
def ofConvert : ConvertError → Failure
  | .conversion e => conversion e
  | .style e => style e
  | .system e => system e

/-- The failure behind descriptions that cannot be generated. -/
def ofGenerate : GenerateError → Failure
  | .parse e => parse e
  | .render e _ => render e

end Failure

/-! ## Diagnostics -/

/-- The kinds of errors that have a text. -/
inductive DiagnosticKind where
  | arguments
  | config
  | usernames
  | flags
  | parse
  | render
  | registry
  | condition
  | story
  | emptySource
  | conversion
  | style
  deriving DecidableEq, Repr

/-- What there is to tell about an error. -/
structure Diagnostic where
  kind : DiagnosticKind
  message : String
  /-- The problems of a configuration. -/
  issues : List Issue := []
  /-- What a program that was run wrote to its error stream. -/
  stderr : String := ""

namespace Diagnostic

/-- A problem of a configuration in a line of its own. -/
def issueLine (i : Issue) : String :=
  "  - " ++ (if i.path.isEmpty then "(root)" else ".".intercalate i.path) ++ ": " ++ i.message

/-- The problems of a configuration, one a line. -/
def issueReport (issues : List Issue) : String :=
  "\n".intercalate ("Username configuration validation failed:" :: issues.map issueLine)

/-- The text for the user; nothing for errors that no input should cause. -/
def described? (d : Diagnostic) : Option String :=
  match d.kind with
  | .usernames => some (issueReport d.issues)
  | .conversion =>
    some (if Text.isBlank d.stderr then d.message else d.message ++ "\n" ++ Text.trim d.stderr)
  | .render | .registry | .condition => none
  | _ => some d.message

end Diagnostic

/-- What there is to tell about a failure. -/
def Failure.diagnostic? : Failure → Option Diagnostic
  | arguments problems => some
    { kind := .arguments, message := "\n".intercalate (problems.map ArgumentProblem.message) }
  | config e => some { kind := .config, message := e.message }
  | usernames e => some
    { kind := .usernames, message := e.message, issues := e.issues.map UsernameIssue.issue }
  | flags e => some { kind := .flags, message := e.message }
  | parse e => some { kind := .parse, message := e.message }
  | render e => some { kind := .render, message := e.message }
  | story e => some { kind := .story, message := e.message }
  | emptySource e => some { kind := .emptySource, message := e.message }
  | conversion e => some { kind := .conversion, message := e.message, stderr := e.stderr }
  | style e => some { kind := .style, message := e.message }
  | system _ => none

end Crosspost
