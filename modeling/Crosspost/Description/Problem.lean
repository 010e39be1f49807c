/-
  What can be wrong with a description.

  * `Problem` lists the causes and `Problem.message` words them;
  * `ParseError` is a cause at the position of the tag at fault.
-/
import Crosspost.Description.Chain
import Crosspost.Description.Condition
import Crosspost.Description.Position

namespace Crosspost

/-- A reason why a source text is no description. Tags are given as they are
    written, names in lower case. -/
inductive Problem where
  /-- A tag that takes no attribute has one. -/
  | needlessAttr (name : String)
  /-- A closing tag has an attribute. -/
  | attrOnClose (raw : String)
  /-- The text ends before a tag is closed. -/
  | unclosed (raw : String)
  /-- A closing tag closes nothing. -/
  | unexpectedClose (raw : String)
  /-- A closing tag closes another tag than the one that is open. -/
  | mismatchedClose (name raw : String)
  /-- An `[else]` does not follow an `[/if]`. -/
  | strayElse
  /-- A tag has no meaning. -/
  | unknownTag (raw : String)
  /-- A tag stands where only text and formatting may. -/
  | notInline (raw : String)
  | selfNotEmpty
  | linkWithoutUrl
  /-- A wrapper does not start with a switch tag. -/
  | wrapperWithoutSwitch (kind : SwitchKind)
  /-- A wrapper holds more than a chain. -/
  | wrapperWithMore (kind : SwitchKind)
  /-- A switch tag around another one has no attribute. -/
  | nestedWithoutAttr (raw name : String)
  /-- A switch tag holds more than the one it wraps. -/
  | switchWithMore (raw : String)
  | genericWithoutUrl
  /-- A switch tag has neither attribute nor text. -/
  | emptySwitch (raw : String)
  | chain (problem : ChainProblem)
  | username (reason : String)
  | ifWithoutCondition
  | condition (error : ConditionError)
  deriving DecidableEq, Repr

/-- The text of a reason. -/
def Problem.message : Problem → String
  | needlessAttr name => "[" ++ name ++ "] does not take an attribute"
  | attrOnClose raw => "Closing tag " ++ raw ++ " cannot have an attribute"
  | unclosed raw => "Unclosed tag " ++ raw
  | unexpectedClose raw => "Unexpected closing tag " ++ raw
  | mismatchedClose name raw => "Expected [/" ++ name ++ "] but found " ++ raw
  | strayElse => "[else] must directly follow a closing [/if] tag"
  | unknownTag raw => "Unknown tag " ++ raw
  | notInline raw =>
    raw ++ " is not allowed here: switch tag text and link labels may only contain text and " ++
      "[b], [i], [u]"
  | selfNotEmpty => "[self] must be empty: write [self][/self]"
  | linkWithoutUrl => "[url] requires a URL: [url=https://…]text[/url]"
  | wrapperWithoutSwitch kind =>
    "[" ++ kind.name ++
      "] must directly contain a switch tag (a site tag or [generic]), not text"
  | wrapperWithMore kind => "[" ++ kind.name ++ "] may only contain a single switch tag chain"
  | nestedWithoutAttr raw name =>
    raw ++ " wraps another switch tag, so it needs an attribute: [" ++ name ++ "=…]"
  | switchWithMore raw => raw ++ " may only contain one nested switch tag and no text"
  | genericWithoutUrl =>
    "[generic] requires a URL attribute: [generic=https://…]text[/generic]"
  | emptySwitch raw => raw ++ " needs an attribute or text content"
  | chain problem => problem.message
  | username reason => reason
  | ifWithoutCondition => "[if] requires a condition, e.g. [if=site==fa]"
  | condition error => error.message

/-- A malformed source, with the place of the first fault. -/
structure ParseError where
  problem : Problem
  position : Position
  deriving DecidableEq, Repr

/-- A line or column as it is shown. -/
def Position.shown (n : Int) : String := (Binary64.textOf? n).getD "Infinity"

/-- A reason together with the place that it is about. -/
def Position.blame (p : Position) (reason : String) : String :=
  reason ++ " (line " ++ Position.shown p.line ++ ", col " ++ Position.shown p.column ++ ")"

/-- The text of a fault: the reason, and where it is. -/
def ParseError.message (e : ParseError) : String := e.position.blame e.problem.message

end Crosspost
