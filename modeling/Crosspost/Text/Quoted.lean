/-
  Texts shown in messages.

  A text is shown between quotes, with its control characters escaped: between
  single quotes, or else between other ones if it holds single quotes but none of
  those.

  * `Text.quoted` shows a line, and `Text.shown` a whole text, cut to 128 code
    units when it is long.
-/
import Crosspost.Text.Hex
import Crosspost.Text.Lines
import Crosspost.Text.Units

namespace Crosspost

namespace Chars

/-- The code of a character, written as two hexadecimal digits. -/
def hexEscape (c : Char) : List Char := ['\\', 'x'] ++ (hexPair c.toNat).map Char.toUpper

/-- A character between two `quote`s. -/
def escapeBetween (quote c : Char) : List Char :=
  if c = quote || c = '\\' then ['\\', c]
  else if c = '\x08' then ['\\', 'b']
  else if c = '\t' then ['\\', 't']
  else if c = '\n' then ['\\', 'n']
  else if c = '\x0c' then ['\\', 'f']
  else if c = '\r' then ['\\', 'r']
  else if c.toNat < 0x20 || (0x7f ≤ c.toNat && c.toNat < 0xa0) then hexEscape c
  else [c]

/-- The quote to put around a text. -/
def quoteFor (cs : List Char) : Char :=
  if !cs.contains '\'' then '\''
  else if !cs.contains '"' then '"'
  else if !cs.contains '\u0060' && !(split (· == '$') cs).tail.any (·.head? == some '\x7b') then
    '\u0060'
  else '\''

/-- A line between quotes. -/
def quoted (cs : List Char) : List Char :=
  let quote := quoteFor cs
  [quote] ++ cs.flatMap (escapeBetween quote) ++ [quote]

/-- The lines of a text, each with the line feed at its end. -/
def closedLines : List Char → List (List Char)
  | [] => []
  | c :: cs =>
    if c = '\n' then [c] :: closedLines cs
    else match closedLines cs with
      | [] => [[c]]
      | line :: lines => (c :: line) :: lines

/-- The first code units of a text; the replacement character stands for half a
    pair. -/
def takeUnits : (units : Nat) → List Char → List Char
  | 0, _ => []
  | _, [] => []
  | units + 1, c :: cs =>
    if unitsOf c ≤ units + 1 then c :: takeUnits (units + 1 - unitsOf c) cs else ['\ufffd']

end Chars

namespace Text

/-- A line between quotes. -/
def quoted (s : String) : String := .ofList (Chars.quoted s.toList)

/-- A text as messages show it: a long one line by line, and no more than 128
    code units of it. -/
def shown (s : String) : String :=
  let cs := s.toList
  let text := if 76 < Chars.width cs
    then [' ', '+', '\n', ' ', ' '].intercalate ((Chars.closedLines cs).map Chars.quoted)
    else Chars.quoted cs
  .ofList (if 128 < Chars.width text then Chars.takeUnits 128 text ++ ['.', '.', '.'] else text)

end Text

end Crosspost
