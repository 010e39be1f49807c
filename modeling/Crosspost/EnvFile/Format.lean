/-
  Files of environment variables.

  A file holds assignments `KEY=value` or `KEY: value`, each with an optional
  `export` before it. A value goes to the end of its line or to a `#`; one in
  quotes may go over several lines, and in double quotes `\n` and `\r` are line
  ends.

  * `EnvFile.parse` are the variables that a file sets;
  * `EnvFile.extend` adds them to the variables that are set already.
-/
import Crosspost.Config.Environment
import Crosspost.Json.Fields
import Crosspost.Text.Lines

namespace Crosspost.EnvFile

open Chars (endsLine)

/-- Whether a character may stand in a key. -/
def isKeyChar (c : Char) : Bool := c.isAlphanum || c == '_' || c == '.' || c == '-'

/-- The text with its line ends written as line feeds. -/
def normalizeLines : List Char → List Char
  | [] => []
  | '\r' :: '\n' :: cs => '\n' :: normalizeLines cs
  | c :: cs => (if c = '\r' then '\n' else c) :: normalizeLines cs

/-- What follows the line at the front of a text. -/
def nextLine (cs : List Char) : List Char := (cs.dropWhile (!endsLine ·)).drop 1

/-- Whether only white space and a comment are left of the line. -/
def endsHere (cs : List Char) : Bool :=
  match cs.dropWhile fun c => isBlank c && !endsLine c with
  | [] => true
  | c :: _ => endsLine c || c == '#'

/-- The text after the sign of an assignment: `=` after any white space, or `:`
    with white space after it. -/
def afterSign? (cs : List Char) : Option (List Char) :=
  match Chars.trimStart cs with
  | '=' :: rest => some rest
  | _ => match cs with
    | ':' :: c :: rest => if isBlank c then some rest else none
    | _ => none

/-- The key at the front of a text and the text after its sign. -/
def readKey? (cs : List Char) : Option (List Char × List Char) :=
  match cs.takeWhile isKeyChar with
  | [] => none
  | key => (afterSign? (cs.dropWhile isKeyChar)).map fun rest => (key, rest)

/-- The text after the word `export` and white space. -/
def afterExport? (cs : List Char) : Option (List Char) :=
  match Chars.after? "export".toList cs with
  | some (c :: rest) => if isBlank c then some (Chars.trimStart rest) else none
  | _ => none

/-- The assignment at the front of a line: key, and the text after the sign. -/
def readAssignment? (cs : List Char) : Option (List Char × List Char) :=
  let cs := Chars.trimStart cs
  ((afterExport? cs).bind readKey?).or (readKey? cs)

/-- Whether a character is a quote. -/
def isQuote (c : Char) : Bool := c == '\'' || c == '"' || c == '\u0060'

/-- The texts that a quote at the front of `cs` may hold, the preferred one
    first, each with what follows the closing quote: up to the first quote that
    no backslash precedes, or else up to one that a backslash precedes. `done`
    holds the characters so far, last one first. -/
def quotations (quote : Char) (done : List Char) : List Char → List (List Char × List Char)
  | [] => []
  | c :: cs =>
    if c = quote then
      (if done.head? = some '\\' then quotations quote (c :: done) cs else []) ++
        [(done.reverse, cs)]
    else quotations quote (c :: done) cs

/-- The quoted value at the front of a text: its quote, its text, and what
    follows. Only a comment may follow it in its line. -/
def readQuoted? (cs : List Char) : Option (Char × List Char × List Char) :=
  match Chars.trimStart cs with
  | q :: rest =>
    if isQuote q then
      ((quotations q [] rest).find? fun found => endsHere found.2).map fun found =>
        (q, found.1, found.2)
    else none
  | [] => none

/-- Text in double quotes with its escaped line ends written out. -/
def expand (value : List Char) : List Char :=
  Chars.replace ['\\', 'r'] ['\r'] (Chars.replace ['\\', 'n'] ['\n'] value)

/-- The text up to the last `quote` that stands at the end of a line, and what
    follows that quote. -/
def upToQuote? (quote : Char) : List Char → Option (List Char × List Char)
  | [] => none
  | c :: cs =>
    match upToQuote? quote cs with
    | some (inner, rest) => some (c :: inner, rest)
    | none => if c = quote && cs.head?.all endsLine then some ([], cs) else none

/-- A text without the pairs of quotes of which one stands at the start of a line
    and the other at the end of one, the last that there is; each step passes at
    least one character. `fresh` says that a line starts here. -/
def dropQuotes : (steps : Nat) → (fresh : Bool) → List Char → List Char
  | 0, _, cs => cs
  | _ + 1, _, [] => []
  | steps + 1, fresh, c :: cs =>
    match if fresh && isQuote c then upToQuote? c cs else none with
    | some (inner, rest) => inner ++ dropQuotes steps false rest
    | none => c :: dropQuotes steps (endsLine c) cs

/-- A value without the quotes around it. -/
def unquote (value : List Char) : List Char :=
  let inner := dropQuotes value.length true value
  if value.head? = some '"' then expand inner else inner

/-- Whether a character may stand in a value that is not read as a quotation. -/
def isPlainChar (c : Char) : Bool := !(c == '#' || c == '\n' || c == '\r')

/-- The value at the front of a text, and what follows it. -/
def readValue (cs : List Char) : List Char × List Char :=
  match readQuoted? cs with
  | some (q, inner, rest) => (unquote (q :: inner ++ [q]), rest)
  | none => (unquote (Chars.trim (cs.takeWhile isPlainChar)), cs.dropWhile isPlainChar)

/-- The assignments of a text, in order; each step passes at least one line. -/
def assignments : (steps : Nat) → List Char → List (String × String)
  | 0, _ => []
  | _ + 1, [] => []
  | steps + 1, cs =>
    match readAssignment? cs with
    | none => assignments steps (nextLine cs)
    | some (key, rest) =>
      let (value, rest) := readValue rest
      (.ofList key, .ofList value) :: assignments steps (nextLine rest)

/-- The variables that a file sets; of several assignments to one the last
    counts. None has the name of the table behind all tables. -/
def parse (text : String) : Variables :=
  let cs := normalizeLines text.toList
  Fields.putAll [] ((assignments (cs.length + 1) cs).filter (·.1 != Member.baseName))

/-- The names of the variables that are set, integer-like ones first. -/
def keys (assigned : Variables) : List String :=
  let fields := assigned.map fun v => (CodePoints.ofString v.1, ())
  (Fields.inOrder fields).map fun f => f.1.text

/-- The variables with others that are set. Unless `overrides` says so, a variable
    that is set already stays as it is. -/
def extend (overrides : Bool) (env assigned : Variables) : Variables :=
  assigned.foldl (fun set v =>
    if !overrides && (env.lookup v.1).isSome then set else set.put v.1 v.2) env

end Crosspost.EnvFile
