/-
  Paragraph styles of rich text documents.

  A style entry is `\sN`, an optional `\sbasedonM`, `\snextK`, one or more control
  words, a space, the name of the style, and a semicolon. The run of a style is
  `\sN` with the control words.

  * `ControlWord.readAll` reads control words, `Style.read?` the entry at the
    front of a text, and `StyleSheet.styles` finds all entries of a document;
  * `StyleSheet.swap` gives every paragraph of one style the run of another.
-/
import Crosspost.Json.Fields
import Crosspost.Number.Binary64
import Crosspost.Text.Lines
import Crosspost.Text.Units

namespace Crosspost

/-- A control word, with or without a space after it. -/
structure ControlWord where
  letters : List Char
  spaced : Bool
  deriving DecidableEq, Repr

namespace ControlWord

/-- The characters of a control word. -/
def chars (w : ControlWord) : List Char :=
  '\\' :: w.letters ++ (if w.spaced then [' '] else [])

/-- Whether a character may stand in a control word. -/
def isLetter (c : Char) : Bool := ('a' ≤ c && c ≤ 'z') || c.isDigit

/-- The control word at the front of a text, and what follows it. -/
def read? (cs : List Char) : Option (ControlWord × List Char) :=
  match cs with
  | '\\' :: rest =>
    match rest.takeWhile isLetter, rest.dropWhile isLetter with
    | [], _ => none
    | letters, ' ' :: more => some (⟨letters, true⟩, more)
    | letters, more => some (⟨letters, false⟩, more)
  | _ => none

/-- The control words at the front of a text, at most `limit` of them, and what
    follows them. -/
def readAll : (limit : Nat) → List Char → List ControlWord × List Char
  | 0, cs => ([], cs)
  | limit + 1, cs =>
    match read? cs with
    | none => ([], cs)
    | some (word, rest) =>
      let (words, rest) := readAll limit rest
      (word :: words, rest)

end ControlWord

/-- A style entry. -/
structure Style where
  /-- The digits of the style's number. -/
  digits : List Char
  /-- The control words after the links to other styles. -/
  words : List ControlWord
  name : List Char
  deriving DecidableEq, Repr

namespace Style

/-- The control words that make a paragraph have the style. -/
def run (s : Style) : List Char :=
  '\\' :: 's' :: s.digits ++ s.words.flatMap ControlWord.chars

/-- Whether a character may stand in a name after its first letter. -/
def isNameChar (c : Char) : Bool := c.isAlpha || c == ' '

/-- A control word with a number: its digits, and what follows them. -/
def readNumbered? (word : String) (cs : List Char) : Option (List Char × List Char) :=
  match Chars.after? ('\\' :: word.toList) cs with
  | none => none
  | some rest =>
    match rest.takeWhile Char.isDigit with
    | [] => none
    | digits => some (digits, rest.dropWhile Char.isDigit)

/-- A name and the semicolon after it, at the front of a text, with what
    follows. -/
def readName? (cs : List Char) : Option (List Char × List Char) :=
  match cs with
  | [] => none
  | c :: _ =>
    if c.isUpper then
      match cs.dropWhile isNameChar with
      | ';' :: rest => some (cs.takeWhile isNameChar, rest)
      | _ => none
    else none

/-- The control words, the name and what follows the entry. A space of its own
    stands before the name; without one, it is the space after the last word. -/
def readBody? (cs : List Char) : Option (List ControlWord × List Char × List Char) :=
  let (words, rest) := ControlWord.readAll cs.length cs
  match words.getLast? with
  | none => none
  | some last =>
    match rest with
    | ' ' :: more => (readName? more).map fun found => (words, found.1, found.2)
    | _ =>
      if last.spaced then
        (readName? rest).map fun found =>
          (words.dropLast ++ [{ last with spaced := false }], found.1, found.2)
      else none

/-- The entry at the front of a text, and what follows it. -/
def read? (cs : List Char) : Option (Style × List Char) := do
  let (digits, rest) ← readNumbered? "s" cs
  let rest := match readNumbered? "sbasedon" rest with
    | some (_, rest) => rest
    | none => rest
  let (_, rest) ← readNumbered? "snext" rest
  let (words, name, rest) ← readBody? rest
  some (⟨digits, words, name⟩, rest)

/-- The number of a style as a double; nothing when it is too large. -/
def number (s : Style) : Option Nat := (digits? s.digits).bind Binary64.round

end Style

/-- Why styles cannot be swapped. -/
inductive StyleError where
  | noStyles
  | unknownStyle (name : String)
  deriving DecidableEq, Repr

/-- The text of an error. -/
def StyleError.message : StyleError → String
  | noStyles => "Couldn't find valid RTF styles"
  | unknownStyle name => "RTF style \"" ++ name ++ "\" not found"

namespace StyleSheet

/-- The style entries of a text from left to right; `skip` characters of the
    entry found last are still to be passed over. -/
def scan : (skip : Nat) → List Char → List Style
  | _, [] => []
  | skip + 1, _ :: cs => scan skip cs
  | 0, c :: cs =>
    match Style.read? (c :: cs) with
    | some (style, rest) => style :: scan (cs.length - rest.length) cs
    | none => scan 0 cs

/-- The style entries of a document. -/
def styles (document : String) : Except StyleError (List Style) :=
  match scan 0 document.toList with
  | [] => .error .noStyles
  | found => .ok found

/-- The run of the last style with a name. -/
def named? (styles : List Style) (name : String) : Option (List Char) :=
  (styles.reverse.find? (·.name == name.toList)).map Style.run

/-- The run of the last style with a number. -/
def numbered? (styles : List Style) (number : Option Nat) : Option (List Char) :=
  (styles.reverse.find? (·.number == number)).map Style.run

/-- The text of a style's number, which is infinite when it is too large. -/
def numberText : Option Nat → String
  | some n => Binary64.text n
  | none => "Infinity"

/-- Whether a style's number comes before another or equals it; the infinite
    one is the last. -/
def numberBefore : Option Nat → Option Nat → Bool
  | some a, some b => a ≤ b
  | _, none => true
  | none, some _ => false

/-- The numbers of the styles, ascending, with their runs. -/
def byNumber (styles : List Style) : List (String × String) :=
  let numbers := (styles.map Style.number).eraseDups.mergeSort numberBefore
  numbers.filterMap fun n => (numbered? styles n).map fun run => (numberText n, .ofList run)

/-- The names of the styles, ascending, with their runs. -/
def byName (styles : List Style) : List (String × String) :=
  let names := Text.sorted (styles.map fun s => String.ofList s.name).eraseDups
  names.filterMap fun name => (named? styles name).map fun run => (name, .ofList run)

/-- The document with the run of one style in the place of that of another. -/
def swap (document source target : String) : Except StyleError String := do
  let styles ← styles document
  match named? styles source, named? styles target with
  | none, _ => .error (.unknownStyle source)
  | some _, none => .error (.unknownStyle target)
  | some old, some new => .ok (.ofList (Chars.replace old new document.toList))

end StyleSheet

end Crosspost
