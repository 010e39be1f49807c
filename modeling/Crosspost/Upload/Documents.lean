/-
  The documents of a run: what is read from them and what is written.

  * `Setup.readDocument` is the text of a document, through the converter where
    it is no plain text;
  * `Setup.writeStory` writes the files of a story, `Setup.writeDescriptions` those
    of a description, and `copyFiles` copies files as they are.
-/
import Crosspost.Json.Reader
import Crosspost.Log.Logger
import Crosspost.Story.Format
import Crosspost.Upload.Failure

namespace Crosspost

/-- What a run works with. -/
structure Setup where
  converter : Converter
  logger : Logger
  /-- The time and the run that an entry shows, by the number of entries before it. -/
  clock : Nat → Stamp
  registry : Registry := .builtin
  /-- The values of the logger can be written, as all those that a run adds. -/
  writable : logger.bindings.isWritable = true := by rfl

namespace Setup

/-! ## Logging -/

/-- The world after an event. -/
def record (s : Setup) (e : LogEvent) (w : World) : World :=
  (s.logger.log (s.clock w.entries.length) e w).2

/-- The world after some events. -/
def recordAll (s : Setup) (events : List LogEvent) (w : World) : World :=
  events.foldl (fun w e => s.record e w) w

/-- Logs an event. -/
def log (s : Setup) (level : LogLevel) (message : String)
    (context : List (CodePoints × Json) := []) : Run Failure Unit :=
  modify (s.record { level, message, context := .ofJson context })

/-- Writes a file. -/
def write (path content : String) : Run Failure Unit :=
  Run.attempt .system fun w => w.write path content

/-- The answer of the converter, which is noted as a call. -/
def ask (call : ConverterCall) (answer : Except ConvertError String) : Run Failure String := do
  modify fun w => { w with calls := w.calls ++ [call] }
  match answer with
  | .ok text => return text
  | .error e => throw (.ofConvert e)

/-! ## Reading -/

/-- Whether a path names a plain text, by its extension. -/
def isPlainText (path : String) : Bool :=
  [".txt", ".md"].contains (Text.lower (Path.extension path))

/-- The text of a document. -/
def readDocument (s : Setup) (path : String) : Run Failure String := do
  if isPlainText path then
    match (← get).read path with
    | .ok text => return Text.dropMark text
    | .error e => throw (.system e)
  else ask (.extract path) (s.converter.extractText (← get) path)

/-- The user names in a file, with the keys that name no site. -/
def readUsernames (registry : Registry) (path : String) (w : World) :
    Except UsernameError LoadedUsernames :=
  match w.read path with
  | .error _ => .error (.unreadable path)
  | .ok text =>
    match Json.parse? text with
    | none => .error (.unreadable path)
    | some value => UsernameFile.load registry value

/-! ## Stories -/

/-- The text of a story in a format; a story without lines is empty. -/
def storyText (s : Setup) (lines : List String) (format : StoryFormat) : Run Failure String :=
  if lines.isEmpty then return ""
  else match format with
    | .txt => return Story.plainText lines
    | .md => return Story.markdown lines
    | .rtf => do
      let text := Story.richTextSource lines
      ask (.richText text) (s.converter.convertToRichText (← get) text .story)

/-- Writes a story in a format, and lists the file. There is no rich text of an
    empty story. -/
def writeFormat (s : Setup) (outDir stem : String) (lines : List String) (format : StoryFormat) :
    Run Failure (List String) := do
  let path := Path.join outDir (stem ++ "." ++ format.name)
  if format = .rtf && lines.isEmpty then
    s.log .warn "Skipping RTF conversion of empty story" [("path", .string path)]
    return []
  else
    write path (← s.storyText lines format)
    s.log .info "Story file written" [("format", .string format.name), ("path", .string path)]
    return [path]

/-- Writes a story in every format that a configured site takes, and lists the
    files. -/
def writeStory (s : Setup) (usernames : Usernames) (path outDir : String) (ignoreEmpty : Bool) :
    Run Failure (List String) := do
  let formats := StoryFormat.plan usernames
  if formats.isEmpty then throw (.story .noFormat)
  let lines := Story.lines (← s.readDocument path)
  if lines.isEmpty then
    let error := StoryError.emptyStory path
    if !ignoreEmpty then throw (.story error)
    s.log .warn ("Ignoring error (" ++ error.message ++ ")")
  let written ← formats.mapM (s.writeFormat outDir (Path.stem path) lines)
  return written.flatten

/-! ## Descriptions -/

/-- Writes the description of a site, and names the file. -/
def writeDescription (outDir : String) (d : SiteDescription) : Run Failure String := do
  let path := Path.join outDir d.fileName
  write path d.text
  return path

/-- Writes the descriptions of all configured sites, and lists the files. Every
    site is rendered before the first file is written. -/
def writeDescriptions (s : Setup) (usernames : Usernames) (flags : List String)
    (path outDir : String) (ignoreEmpty : Bool) :
    Run Failure (List SiteDescription × List String) := do
  let source ← s.readDocument path
  if Text.isBlank source then
    let error := EmptySource.mk path
    if !ignoreEmpty then throw (.emptySource error)
    s.log .warn ("Ignoring error (" ++ error.message ++ ")")
  match Generated.ofSource s.registry usernames flags source with
  | .error e =>
    modify (s.recordAll e.events)
    throw (.ofGenerate e)
  | .ok generated =>
    modify (s.recordAll generated.events)
    let files ← generated.descriptions.mapM (writeDescription outDir)
    let sites := generated.descriptions.map fun d => Json.text d.site
    s.log .info "Descriptions written" [("sites", .array sites)]
    return (generated.descriptions, files)

/-! ## Other files -/

/-- Copies a file, and names the copy. -/
def copyFile (outDir file : String) : Run Failure String := do
  let path := Path.join outDir (Path.basename file)
  let (result, w) := (← get).copy file path
  set w
  match result with
  | .ok () => return path
  | .error e => throw (.system e)

/-- Copies files into a directory, and lists the copies. -/
def copyFiles (outDir : String) (files : List String) : Run Failure (List String) :=
  files.mapM (copyFile outDir)

end Setup

end Crosspost
