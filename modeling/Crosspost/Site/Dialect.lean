/-
  The markup dialects of the destination sites.

  A dialect has marks for the kinds of formatting that it can express, and links.

  * `Dialect.marks?` gives the text put before and after formatted content; a
    dialect without marks for a kind shows the content as it is;
  * `Dialect.bbcode`, `markdown` and `plaintext` are those of the built-in sites;
    in their links a blank label stands for the address itself.
-/
import Crosspost.Text.Blank

namespace Crosspost

/-- The kinds of basic formatting. -/
inductive FormatKind where
  | bold
  | italic
  | underline
  deriving DecidableEq, Repr

/-- A dialect that a destination site reads. -/
structure Dialect where
  /-- The name of the dialect. -/
  name : String
  /-- What stands before and after content of a kind. -/
  marks? : FormatKind → Option (String × String)
  /-- A link to an address shown as a label. -/
  link : String → String → String

namespace Dialect

/-- Content of a kind between its marks. -/
def wrap? (dialect : Dialect) (kind : FormatKind) (content : String) : Option String :=
  (dialect.marks? kind).map fun marks => marks.1 ++ content ++ marks.2

/-- Content of a kind as a site shows it: blank content takes no marks. -/
def format (dialect : Dialect) (kind : FormatKind) (content : String) : String :=
  if Text.isBlank content then content else (dialect.wrap? kind content).getD content

/-! ## Built-in dialects -/

/-- Tags in brackets. -/
def bbcode : Dialect where
  name := "bbcode"
  marks?
    | .bold => some ("[b]", "[/b]")
    | .italic => some ("[i]", "[/i]")
    | .underline => some ("[u]", "[/u]")
  link url label :=
    if Text.isBlank label then "[url]" ++ url ++ "[/url]"
    else "[url=" ++ url ++ "]" ++ label ++ "[/url]"

/-- Markdown, where underlining is written as inline HTML. -/
def markdown : Dialect where
  name := "markdown"
  marks?
    | .bold => some ("**", "**")
    | .italic => some ("*", "*")
    | .underline => some ("<u>", "</u>")
  link url label :=
    if Text.isBlank label then "<" ++ url ++ ">" else "[" ++ label ++ "](" ++ url ++ ")"

/-- Plain text, which has no formatting. -/
def plaintext : Dialect where
  name := "plaintext"
  marks? _ := none
  link url label := if Text.isBlank label then url else Text.trim label ++ ": " ++ url

end Dialect

end Crosspost
