/-
  The lines of a story.

  * `Story.lines` are the trimmed lines of a text, with one empty line for every
    run of blank ones between two others;
  * `Story.escape` keeps a line from being read as Markdown.
-/
import Crosspost.Text.Lines

namespace Crosspost.Story

/-- The lines with runs of empty ones cut to one. `started` says that a line
    that is not empty came before, `gap` that empty lines followed it. -/
def squeeze (started gap : Bool) : List String → List String
  | [] => []
  | line :: lines =>
    if line = "" then squeeze started started lines
    else (if gap then ["", line] else [line]) ++ squeeze true false lines

/-- The lines of a story. -/
def lines (text : String) : List String := squeeze false false (Text.trimmedLines text)

/-- A line with a backslash before every star and a space between two equals
    signs. -/
def escapeChars : List Char → List Char
  | [] => []
  | c :: cs =>
    if c = '*' then '\\' :: '*' :: escapeChars cs
    else if c = '=' && cs.head? == some '=' then '=' :: ' ' :: escapeChars cs
    else c :: escapeChars cs

/-- A line as it is written in Markdown. -/
def escape (line : String) : String := .ofList (escapeChars line.toList)

end Crosspost.Story
