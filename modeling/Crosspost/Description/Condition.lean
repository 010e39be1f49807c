/-
  Conditions on the destination site and on defined flags.

  A condition is `site == fa`, `site != fa` or `site in fa,ib`, or the same with
  `define` and names of flags.

  * `Condition.parse` reads one, and finds the sites it names in a registry;
  * `Condition.holds` evaluates it for a destination and a list of flags.
-/
import Crosspost.Site.Registry

namespace Crosspost

/-- What a condition asks about: the destination site, or the defined flags.
    The word `constructor` asks about flags just as `define` does. -/
inductive Subject where
  | site
  | define
  | constructor
  deriving DecidableEq, Repr

/-- How a condition compares. -/
inductive Comparison where
  | equal
  | unequal
  | among
  deriving DecidableEq, Repr

/-- A condition; sites are given by their ids. -/
structure Condition where
  subject : Subject
  comparison : Comparison
  operands : List String
  deriving DecidableEq, Repr

/-- Why an expression is no condition. -/
inductive ConditionProblem where
  | malformed
  | unknownParameter (name : String)
  | missingValue
  | invalidIdentifier (operand : String)
  | unknownSite (operand : String)
  deriving DecidableEq, Repr

/-- The text of a problem. -/
def ConditionProblem.message : ConditionProblem → String
  | malformed => "expected \"<param> == <value>\", \"<param> != <value>\" or \"<param> in <a>,<b>\""
  | unknownParameter name => "unknown parameter \"" ++ name ++ "\" (allowed: define, site)"
  | missingValue => "missing value"
  | invalidIdentifier operand => "\"" ++ operand ++ "\" is not a valid identifier"
  | unknownSite operand => "unknown site \"" ++ operand ++ "\""

/-- A refused expression. -/
structure ConditionError where
  expression : String
  problem : ConditionProblem
  deriving DecidableEq, Repr

/-- The text of a refusal. -/
def ConditionError.message (e : ConditionError) : String :=
  "Invalid [if] condition \"" ++ e.expression ++ "\": " ++ e.problem.message

/-! ## Identifiers -/

/-- Whether a character may stand in the name of a flag or in an operand. -/
def isIdentifierChar (c : Char) : Bool := c.isAlphanum || c == '_' || c == '-'

/-- Whether a text may name a flag, or stand as an operand. -/
def isIdentifier (s : String) : Bool := !s.toList.isEmpty && s.toList.all isIdentifierChar

/-- Whether a character ends a line in an expression. -/
def isLineEnd (c : Char) : Bool := c == '\n' || c == '\r' || c == '\u2028' || c == '\u2029'

namespace Condition

/-! ## Reading -/

/-- The parts of an expression: the parameter's name, the comparison, and the
    trimmed text of the operands. -/
structure Parts where
  name : List Char
  comparison : Comparison
  operands : List Char

/-- The comparison that follows a parameter's name, and the text after it. The
    word `in` has white space on both sides. -/
def readComparison? (cs : List Char) : Option (Comparison × List Char) :=
  match Chars.trimStart cs with
  | '=' :: '=' :: rest => some (.equal, rest)
  | '!' :: '=' :: rest => some (.unequal, rest)
  | i :: n :: blank :: rest =>
    if i.toLower == 'i' && n.toLower == 'n' && isBlank blank && (cs.head?.any isBlank) then
      some (.among, rest)
    else none
  | _ => none

/-- The parts of an expression, if it has the form of a condition. -/
def split? (cs : List Char) : Option Parts :=
  let text := Chars.trimStart cs
  let name := text.takeWhile Char.isAlpha
  if name.isEmpty then none
  else match readComparison? (text.dropWhile Char.isAlpha) with
    | none => none
    | some (comparison, rest) =>
      let operands := Chars.trim rest
      if operands.any isLineEnd then none else some ⟨name, comparison, operands⟩

/-- The subject that a parameter's name stands for, in any letter case. -/
def subject? (name : List Char) : Option Subject :=
  let lowered := String.ofList (Chars.lower name)
  if lowered = "site" then some .site
  else if lowered = "define" then some .define
  else if lowered = "constructor" then some .constructor
  else none

/-- The operands as they are written: one for a plain comparison, and the
    pieces between commas that are not blank for a list. -/
def writtenOperands (parts : Parts) : List String :=
  match parts.comparison with
  | .among => ((Chars.splitOn ',' parts.operands).map Chars.trim).filter (!·.isEmpty)
      |>.map String.ofList
  | _ => [.ofList parts.operands]

/-- An operand as the condition holds it: a site by its id, a flag by its
    name. -/
def readOperand (registry : Registry) (subject : Subject) (operand : String) :
    Except ConditionProblem String :=
  if !isIdentifier operand then .error (.invalidIdentifier operand)
  else match subject with
    | .site => match registry.resolve? operand with
      | some site => .ok site.id
      | none => .error (.unknownSite operand)
    | _ => .ok operand

/-- The condition that the parts of an expression make. -/
def ofParts (registry : Registry) (parts : Parts) : Except ConditionProblem Condition :=
  match subject? parts.name with
  | none => .error (.unknownParameter (.ofList parts.name))
  | some subject =>
    match writtenOperands parts with
    | [] => .error .missingValue
    | "" :: _ => .error .missingValue
    | operands => do
      let operands ← operands.mapM (readOperand registry subject)
      .ok ⟨subject, parts.comparison, operands⟩

/-- The condition that an expression spells. -/
def parse (registry : Registry) (expression : String) : Except ConditionError Condition :=
  match split? expression.toList with
  | none => .error ⟨expression, .malformed⟩
  | some parts => (ofParts registry parts).mapError fun problem => ⟨expression, problem⟩

/-! ## Evaluation -/

/-- Whether an operand matches the destination or is a defined flag. -/
def accepts (c : Condition) (target : String) (flags : List String) (operand : String) : Bool :=
  match c.subject with
  | .site => operand == target
  | _ => flags.contains operand

/-- Whether a condition holds for a destination and a list of flags. -/
def holds (c : Condition) (target : String) (flags : List String) : Bool :=
  match c.comparison with
  | .unequal => !c.operands.any (c.accepts target flags)
  | _ => c.operands.any (c.accepts target flags)

end Condition

end Crosspost
