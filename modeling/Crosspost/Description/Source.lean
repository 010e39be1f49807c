/-
  Source texts before reading, and rendered texts before writing.

  * `Source.normalize` trims every line of a source;
  * `Source.finalize` leaves at most one blank line in a row and ends the text
    with a line feed.
-/
import Crosspost.Text.Lines

namespace Crosspost.Source

/-- A source text without a byte order mark, its lines trimmed and ended by
    line feeds. -/
def normalize (raw : String) : String := "\n".intercalate (Text.trimmedLines (Text.dropMark raw))

/-- The text with every run of line feeds cut to at most two; `run` counts the
    line feeds just before. -/
def collapse : (run : Nat) → List Char → List Char
  | _, [] => []
  | run, c :: cs =>
    if c = '\n' then
      if run < 2 then c :: collapse (run + 1) cs else collapse run cs
    else c :: collapse 0 cs

/-- A rendered text without superfluous line feeds and ended by one; blank text
    is empty. -/
def finalize (text : String) : String :=
  let trimmed := Chars.trim (collapse 0 text.toList)
  if trimmed.isEmpty then "" else .ofList (trimmed ++ ['\n'])

end Crosspost.Source
