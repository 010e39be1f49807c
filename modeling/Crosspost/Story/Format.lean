/-
  The formats that sites take stories in.

  * `StoryFormat.plan` lists the formats that the configured sites take;
  * `Story.plainText` and `Story.markdown` write the lines of a story with a
    carriage return and a line feed after each; `Story.richTextSource` is the text
    that is converted to rich text.
-/
import Crosspost.Config.Usernames
import Crosspost.Story.Lines

namespace Crosspost

/-- A format of story files. -/
inductive StoryFormat where
  | txt
  | md
  | rtf
  deriving DecidableEq, Repr

namespace StoryFormat

/-- The formats in the order in which files are written. -/
def all : List StoryFormat := [txt, md, rtf]

/-- The name of a format, which ends the names of its files. -/
def name : StoryFormat → String
  | txt => "txt"
  | md => "md"
  | rtf => "rtf"

/-- The ids of the sites that take a format. -/
def sites : StoryFormat → List String
  | txt => ["furaffinity", "inkbunny", "sofurry"]
  | md => ["weasyl"]
  | rtf => ["aryion"]

/-- The formats that some configured site takes. -/
def plan (usernames : Usernames) : List StoryFormat :=
  all.filter fun format => format.sites.any fun site => (usernames.get? site).isSome

end StoryFormat

namespace Story

/-- Lines with a carriage return and a line feed after each. -/
def plainText (lines : List String) : String := "\r\n".intercalate lines ++ "\r\n"

/-- Lines in Markdown, with a carriage return and a line feed after each. -/
def markdown (lines : List String) : String := plainText (lines.map escape)

/-- The paragraphs of a story, between line feeds. -/
def richTextSource (lines : List String) : String := "\n".intercalate (lines.filter (· != ""))

end Story

end Crosspost
