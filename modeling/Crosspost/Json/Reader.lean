/-
  Reading JSON texts.

  * `Json.parse?` reads a whole text; white space is tab, line feed, carriage
    return and space, and nothing may follow the value;
  * `readString`, `readNumber` and `readValue` read one item from the front of
    a text and return what follows it. The escapes of a text stand for code
    units, of which two may make a character. A value is read with a bound on the
    steps, which the length of the text covers: a bracket takes two steps, and
    what closes it is a character too.
-/
import Crosspost.Json.Value

namespace Crosspost.Json

/-- White space between the parts of a JSON text. -/
def isSpace (c : Char) : Bool := c == ' ' || c == '\n' || c == '\r' || c == '\t'

/-- The text without leading space. -/
def skipSpace (cs : List Char) : List Char := cs.dropWhile isSpace

/-- A code unit of four hexadecimal digits, and what follows it. -/
def readUnit : List Char → Option (Nat × List Char)
  | a :: b :: c :: d :: rest => do
    let a ← Chars.hexDigit? a
    let b ← Chars.hexDigit? b
    let c ← Chars.hexDigit? c
    let d ← Chars.hexDigit? d
    some (((a * 16 + b) * 16 + c) * 16 + d, rest)
  | _ => none

/-- The character that a one-letter escape stands for. -/
def simpleEscape? : Char → Option Char
  | '"' => some '"'
  | '\\' => some '\\'
  | '/' => some '/'
  | 'b' => some '\x08'
  | 'f' => some '\x0c'
  | 'n' => some '\n'
  | 'r' => some '\r'
  | 't' => some '\t'
  | _ => none

/-- The rest of a quoted text, after its opening quote; `done` holds the code
    points read so far, last one first. -/
def readQuoted : (steps : Nat) → (done : CodePoints) → List Char →
    Option (CodePoints × List Char)
  | 0, _, _ => none
  | _ + 1, _, [] => none
  | steps + 1, done, c :: cs =>
    if c = '"' then some (CodePoints.join done.reverse, cs)
    else if c.toNat < 0x20 then none
    else if c = '\\' then
      match cs with
      | 'u' :: rest => do
        let (unit, rest) ← readUnit rest
        readQuoted steps (.ofUnit unit :: done) rest
      | e :: rest => do
        let d ← simpleEscape? e
        readQuoted steps (.char d :: done) rest
      | [] => none
    else readQuoted steps (.char c :: done) cs

/-- A quoted text, and what follows it. -/
def readString (cs : List Char) : Option (CodePoints × List Char) :=
  match cs with
  | '"' :: rest => readQuoted rest.length [] rest
  | _ => none

/-- The digits at the front of a text, and what follows them. -/
def spanDigits (cs : List Char) : List Char × List Char :=
  (cs.takeWhile Char.isDigit, cs.dropWhile Char.isDigit)

/-- The whole part of a number: no leading zero. -/
def readWhole (cs : List Char) : Option (List Char × List Char) :=
  match spanDigits cs with
  | ([], _) => none
  | (['0'], rest) => some (['0'], rest)
  | ('0' :: _, _) => none
  | found => some found

/-- The fraction of a number, if there is one. -/
def readFraction (cs : List Char) : Option (List Char × List Char) :=
  match cs with
  | '.' :: rest => match spanDigits rest with
    | ([], _) => none
    | (digits, rest) => some ('.' :: digits, rest)
  | _ => some ([], cs)

/-- The exponent of a number, if there is one. -/
def readExponent (cs : List Char) : Option (List Char × List Char) :=
  match cs with
  | e :: rest =>
    if e = 'e' || e = 'E' then
      let (sign, rest) := match rest with
        | '+' :: rest => (['+'], rest)
        | '-' :: rest => (['-'], rest)
        | _ => ([], rest)
      match spanDigits rest with
      | ([], _) => none
      | (digits, rest) => some (e :: sign ++ digits, rest)
    else some ([], cs)
  | [] => some ([], cs)

/-- A number, and what follows it. -/
def readNumber (cs : List Char) : Option (String × List Char) := do
  let (sign, cs) := match cs with
    | '-' :: rest => (['-'], rest)
    | _ => ([], cs)
  let (whole, cs) ← readWhole cs
  let (fraction, cs) ← readFraction cs
  let (exponent, cs) ← readExponent cs
  some (.ofList (sign ++ whole ++ fraction ++ exponent), cs)

/-- What follows a literal word, if the text starts with it. -/
def afterWord? : (word cs : List Char) → Option (List Char)
  | [], cs => some cs
  | w :: word, c :: cs => if w = c then afterWord? word cs else none
  | _ :: _, [] => none

/-- A word or a number, and what follows it. -/
def readScalar (cs : List Char) : Option (Json × List Char) :=
  match afterWord? "null".toList cs with
  | some rest => some (.null, rest)
  | none => match afterWord? "true".toList cs with
    | some rest => some (.bool true, rest)
    | none => match afterWord? "false".toList cs with
      | some rest => some (.bool false, rest)
      | none => (readNumber cs).map fun (literal, rest) => (.number literal, rest)

mutual
/-- A value, and what follows it. -/
def readValue : (steps : Nat) → List Char → Option (Json × List Char)
  | 0, _ => none
  | steps + 1, cs =>
    match skipSpace cs with
    | '[' :: rest => match skipSpace rest with
      | ']' :: rest => some (.array [], rest)
      | rest => readItems steps [] rest
    | '\x7b' :: rest => match skipSpace rest with
      | '\x7d' :: rest => some (.object [], rest)
      | rest => readEntries steps [] rest
    | '"' :: rest => (readString ('"' :: rest)).map fun (s, rest) => (.string s, rest)
    | rest => readScalar rest

/-- The items of an array up to its closing bracket; `done` holds those read
    so far, last one first. -/
def readItems : (steps : Nat) → (done : List Json) → List Char → Option (Json × List Char)
  | 0, _, _ => none
  | steps + 1, done, cs => do
    let (item, rest) ← readValue steps cs
    match skipSpace rest with
    | ',' :: rest => readItems steps (item :: done) rest
    | ']' :: rest => some (.array (item :: done).reverse, rest)
    | _ => none

/-- The entries of an object up to its closing brace; `done` holds those read
    so far, last one first. -/
def readEntries : (steps : Nat) → (done : List (CodePoints × Json)) → List Char →
    Option (Json × List Char)
  | 0, _, _ => none
  | steps + 1, done, cs => do
    let (key, rest) ← readString (skipSpace cs)
    match skipSpace rest with
    | ':' :: rest =>
      let (value, rest) ← readValue steps rest
      match skipSpace rest with
      | ',' :: rest => readEntries steps ((key, value) :: done) rest
      | '\x7d' :: rest => some (.object ((key, value) :: done).reverse, rest)
      | _ => none
    | _ => none
end

/-- The value that a text holds. -/
def parse? (s : String) : Option Json := do
  let cs := s.toList
  let (value, rest) ← readValue (cs.length + 1) cs
  if (skipSpace rest).isEmpty then some value else none

end Crosspost.Json
