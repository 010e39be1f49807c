/-
  Document converters.

  The text of a document that is no plain text, and rich text from plain text,
  come from a document converter.

  * `Converter` is what a converter answers, and `ConvertError` why it has no
    answer.
-/
import Crosspost.Story.StyleSheet
import Crosspost.Workspace.World

namespace Crosspost

/-- A conversion that failed. -/
structure ConversionError where
  message : String
  /-- The exit code of the program that was run. -/
  exitCode : Option Int
  /-- What the program wrote to its error stream. -/
  stderr : String
  deriving DecidableEq, Repr

/-- Why a converter has no answer. -/
inductive ConvertError where
  | conversion (error : ConversionError)
  | style (error : StyleError)
  | system (error : FsError)
  deriving DecidableEq, Repr

/-- A style to look for in converted text, and the one to put in its place. -/
structure StyleSwap where
  source : String
  target : String
  deriving DecidableEq, Repr

/-- The styles of stories. -/
def StyleSwap.story : StyleSwap := ⟨"Preformatted Text", "Normal"⟩

/-- What a document converter answers in a world. -/
structure Converter where
  /-- The text of the document at a path. -/
  extractText : World → String → Except ConvertError String
  /-- Rich text of a plain text. -/
  convertToRichText : World → String → StyleSwap → Except ConvertError String

end Crosspost
