/-
  Stories that are processed again.

  * `Story.text?`: the text of a story in a format that needs no converter, and
    `Setup.HasStory`: the files of a story hold these texts;
  * `Setup.hasStory_of_writeStory`: so they do after a story has been processed;
  * `Setup.Rewrites s outDir path lines v u`: from `v` to `u`, nothing has been written but files
    of a story and the log; then the files are as before (`Setup.HasStory.of_rewrites`);
  * `Setup.Rewrites.obeys_writeLines`: writing the lines of a story does no more, however it ends,
    and `Setup.exists_run_writeLines`: it succeeds where it has succeeded before;
  * `Story.lines_exact`: **the lines of a story are determined by those of its text, and its files
    are the same when it is processed again**.
-/
import Crosspost.Proofs.Story.Lines
import Crosspost.Proofs.Upload.Steps
import Crosspost.Proofs.Workspace.Names

namespace Crosspost

open Run

namespace Story

/-- The text of a story with some lines in a format, if no converter is asked for it. -/
def text? (lines : List String) : StoryFormat → Option String
  | .txt => some (if lines = [] then "" else plainText lines)
  | .md => some (if lines = [] then "" else markdown lines)
  | .rtf => none

/-- A story that is written as plain text is read again, be it empty. -/
theorem lines_of_text? {text file : String} (h : file ∈ text? (lines text) .txt) :
    lines file = lines text := by
  cases h
  split_ifs with hempty
  · rw [hempty]
    decide
  · exact lines_plainText text

end Story

namespace Path

/-- The name of the file of a story stands for a file. -/
theorem isName_story (path : String) (format : StoryFormat) :
    IsName (stem path ++ "." ++ format.name) := by
  have hlast : ∀ front back : String, front ++ "." ++ format.name = back → back.toList.getLast? =
      format.name.toList.getLast? := by
    rintro front _ rfl
    cases format <;> simp [StoryFormat.name]
  refine ⟨fun h => ?_, fun h => ?_, fun h => ?_, isPlain_story path format⟩
  all_goals
    have hend := hlast _ _ h
    cases format <;> exact absurd hend (by decide)

end Path

namespace Setup

variable {s : Setup} {usernames : Usernames} {path path' outDir : String} {ignoreEmpty : Bool}
  {u v w : World} {lines : List String}

/-- The path of the file of a story in a format. -/
def storyPath (outDir path : String) (format : StoryFormat) : String :=
  Path.join outDir (Path.stem path ++ "." ++ format.name)

/-- The files of a story hold the texts for its lines, where no converter is asked for them. -/
def HasStory (w : World) (usernames : Usernames) (outDir path : String) (lines : List String) :
    Prop :=
  ∀ format ∈ StoryFormat.plan usernames, ∀ text ∈ Story.text? lines format,
    w.read (storyPath outDir path format) = .ok text

/-- The log is none of the files of a story. -/
def LogsApart (s : Setup) (w : World) (usernames : Usernames) (outDir path : String) : Prop :=
  ∀ format ∈ StoryFormat.plan usernames,
    s.logger.writes w (w.destination (storyPath outDir path format)) = false

/-- A file of a story. -/
def IsFile (path : String) (lines : List String) (o : Output) : Prop :=
  ∃ format : StoryFormat, o.name = Path.stem path ++ "." ++ format.name ∧
    ∀ text ∈ Story.text? lines format, o.text = text

/-- Nothing has been written but files of a story, and the log. -/
def Rewrites (s : Setup) (outDir path : String) (lines : List String) (v u : World) : Prop :=
  ∃ outputs, Filled s outDir v outputs u ∧ ∀ o ∈ outputs, IsFile path lines o

/-! ## Paths of stories -/

theorem endsIn_storyPath (outDir path : String) (format : StoryFormat) :
    Path.EndsIn (storyPath outDir path format) (Path.stem path ++ "." ++ format.name) :=
  Path.endsIn_join outDir (Path.isName_story path format)

theorem basename_storyPath (outDir path : String) (format : StoryFormat) :
    Path.basename (storyPath outDir path format) = Path.stem path ++ "." ++ format.name :=
  (endsIn_storyPath outDir path format).basename_eq (Path.isName_story path format)

theorem stem_storyPath (outDir path : String) (format : StoryFormat) :
    Path.stem (storyPath outDir path format) = Path.stem path :=
  Path.stem_eq (basename_storyPath outDir path format) (Path.not_mem_stem path)

theorem storyPath_storyPath (outDir' outDir path : String) (format : StoryFormat) :
    storyPath outDir' (storyPath outDir path format) = storyPath outDir' path := by
  funext format'
  rw [storyPath, stem_storyPath, storyPath]

/-- The plain text of a story is read as such, if its name is not all extension. -/
theorem isPlainText_storyPath (outDir : String) (h : Path.stem path ≠ "") :
    isPlainText (storyPath outDir path .txt) = true := by
  have hname := Path.isName_story path .txt
  have hbase := basename_storyPath outDir path .txt
  rw [isPlainText, Path.extension_eq hbase h (by decide) (hbase ▸ hname.ne_dots)]
  decide

/-- Files of a story at one place have one format. -/
theorem IsFile.text_eq {o : Output} {format : StoryFormat} {text : String}
    (h : IsFile path lines o) (htext : text ∈ Story.text? lines format)
    (hplace : v.destination (o.path outDir) = v.destination (storyPath outDir path format)) :
    o.text = text := by
  obtain ⟨other, hname, hother⟩ := h
  have hleft := World.getLast?_destination (endsIn_storyPath outDir path other)
    (Path.isName_story path other) v
  have hright := World.getLast?_destination (endsIn_storyPath outDir path format)
    (Path.isName_story path format) v
  have hpath : o.path outDir = storyPath outDir path other := by rw [Output.path, hname, storyPath]
  rw [← hpath, hplace, hright, Option.some.injEq] at hleft
  have hformat : format = other := by
    have hnames := congrArg String.toList hleft
    simp only [String.toList_append, List.append_cancel_left_eq] at hnames
    cases format <;> cases other <;> first | rfl | exact absurd hnames (by decide)
  exact hother text (hformat ▸ htext)

/-! ## Stories once and again -/

theorem Extracts.unique {text text' : String} (h : s.Extracts u path text)
    (h' : s.Extracts u path text') : text = text' := by
  cases hplain : isPlainText path with
  | true =>
    obtain ⟨content, hread, rfl⟩ := h.plain hplain
    obtain ⟨content', hread', rfl⟩ := h'.plain hplain
    rw [hread] at hread'
    cases hread'
    rfl
  | false =>
    have hanswer := (h.converted hplain).symm.trans (h'.converted hplain)
    cases hanswer
    rfl

theorem Tells.eq_text {format : StoryFormat} {text text' : String}
    (h : s.Tells outDir v lines format text) (h' : text' ∈ Story.text? lines format) :
    text = text' := by
  unfold Tells at h
  cases format with
  | txt | md =>
    cases h'
    split_ifs at h ⊢ <;> exact h
  | rtf => cases h'

theorem IsStory.isFile {format : StoryFormat} {o : Output}
    (h : s.IsStory outDir v (Path.stem path) lines format o) : IsFile path lines o :=
  ⟨format, h.1, fun _ htext => h.2.eq_text htext⟩

/-- What a story that has been processed has made. -/
theorem exists_outputs_of_writeStory {paths : List String} {text : String}
    (h : (s.writeStory usernames path outDir ignoreEmpty).run.run v = (.ok paths, u))
    (htext : s.Extracts v path text) : ∃ outputs, Filled s outDir v outputs u ∧
      (∀ o ∈ outputs, IsFile path (Story.lines text) o) ∧
        paths = outputs.map (·.path outDir) ∧ List.Forall₂
          (s.IsStory outDir v (Path.stem path) (Story.lines text))
          (formats usernames (Story.lines text)) outputs := by
  obtain ⟨-, source, outputs, hsource, hstory, hpaths, hfilled⟩ := writeStory_eq_ok h
  obtain rfl := hsource.unique htext
  refine ⟨outputs, hfilled, fun o ho => ?_, hpaths, hstory⟩
  obtain ⟨format, -, hformat⟩ := exists_of_forall₂ hstory.flip ho
  exact IsStory.isFile hformat

theorem IsStory.path_eq {format : StoryFormat} {o : Output}
    (h : s.IsStory outDir v (Path.stem path) lines format o) :
    o.path outDir = storyPath outDir path format := by
  rw [Output.path, h.1, storyPath]

theorem IsStory.map_path {all : List StoryFormat} {outputs : List Output}
    (h : List.Forall₂ (s.IsStory outDir v (Path.stem path) lines) all outputs) :
    outputs.map (·.path outDir) = all.map (storyPath outDir path) := by
  induction h with
  | nil => rfl
  | cons ho _ ih => rw [List.map_cons, List.map_cons, ih, ho.path_eq]

/-- The files of a story are those of its formats. -/
theorem paths_of_writeStory {paths : List String} {text : String}
    (h : (s.writeStory usernames path outDir ignoreEmpty).run.run v = (.ok paths, u))
    (htext : s.Extracts v path text) :
    paths = (formats usernames (Story.lines text)).map (storyPath outDir path) := by
  obtain ⟨outputs, -, -, hpaths, hstory⟩ := exists_outputs_of_writeStory h htext
  exact hpaths.trans (IsStory.map_path hstory)

/-- **The files of a story hold its text** after it has been processed. -/
theorem hasStory_of_writeStory {paths : List String} {text : String}
    (h : (s.writeStory usernames path outDir ignoreEmpty).run.run v = (.ok paths, u))
    (htext : s.Extracts v path text) (hlog : s.LogsApart v usernames outDir path) :
    HasStory u usernames outDir path (Story.lines text) := by
  obtain ⟨outputs, hfilled, hfiles, -, hstory⟩ := exists_outputs_of_writeStory h htext
  intro format hformat file hfile
  have hmem : format ∈ formats usernames (Story.lines text) := by
    refine List.mem_filter.2 ⟨hformat, ?_⟩
    cases format with
    | txt | md => rfl
    | rtf => cases hfile
  obtain ⟨o, ho, hpart⟩ := exists_of_forall₂ hstory hmem
  have hholds := hpart.2.eq_text hfile
  rw [← hpart.path_eq, ← hholds]
  refine hfilled.read_of_mem ho (hpart.path_eq ▸ hlog format hformat) fun other hother hplace => ?_
  rw [hholds]
  exact (hfiles other hother).text_eq hfile (hpart.path_eq ▸ hplace)

/-- So there is a file for each of its formats. -/
theorem exists_read_of_writeStory {paths : List String} {text : String}
    (h : (s.writeStory usernames path outDir ignoreEmpty).run.run v = (.ok paths, u))
    (htext : s.Extracts v path text) (hlog : s.LogsApart v usernames outDir path) :
    ∀ format ∈ formats usernames (Story.lines text), ∃ file,
      u.read (storyPath outDir path format) = .ok file := by
  obtain ⟨outputs, hfilled, -, -, hstory⟩ := exists_outputs_of_writeStory h htext
  intro format hformat
  obtain ⟨o, ho, hpart⟩ := exists_of_forall₂ hstory hformat
  rw [← hpart.path_eq]
  exact hfilled.exists_read_of_mem ho
    (hpart.path_eq ▸ hlog format (List.mem_of_mem_filter hformat))

/-- What is done with the lines of a story. -/
def writeLines (s : Setup) (usernames : Usernames) (path outDir : String) (ignoreEmpty : Bool)
    (lines : List String) : Run Failure (List String) := do
  if lines.isEmpty then
    let error := StoryError.emptyStory path
    if !ignoreEmpty then throw (.story error)
    s.log .warn ("Ignoring error (" ++ error.message ++ ")")
  let written ← (StoryFormat.plan usernames).mapM (s.writeFormat outDir (Path.stem path) lines)
  return written.flatten

theorem writeStory_eq (h : StoryFormat.plan usernames ≠ []) (s : Setup) (path outDir : String)
    (ignoreEmpty : Bool) : s.writeStory usernames path outDir ignoreEmpty =
      s.readDocument path >>= fun text =>
        s.writeLines usernames path outDir ignoreEmpty (Story.lines text) := by
  have hsome : ¬ (StoryFormat.plan usernames).isEmpty = true := by simpa using h
  unfold writeStory writeLines
  simp only [if_neg hsome]

/-- A story without lines is an error, unless such stories are allowed. -/
theorem ignoreEmpty_of_writeStory {paths : List String} {text : String}
    (h : (s.writeStory usernames path outDir ignoreEmpty).run.run v = (.ok paths, u))
    (htext : s.Extracts v path text) (hempty : Story.lines text = []) : ignoreEmpty = true := by
  rw [writeStory_eq (writeStory_eq_ok h).1] at h
  obtain ⟨source, w, hread, h⟩ := run_bind_eq_ok h
  obtain rfl := (readDocument_eq_ok outDir hread).1.unique htext
  rw [hempty, writeLines] at h
  cases ignoreEmpty with
  | true => rfl
  | false =>
    simp only [List.isEmpty_nil, Bool.not_false, if_true] at h
    cases h

/-- Files of a story that are written again stay as they are. -/
theorem HasStory.of_rewrites (h : HasStory v usernames outDir path lines)
    (hrewrites : s.Rewrites outDir path lines v u) (hlog : s.LogsApart v usernames outDir path) :
    HasStory u usernames outDir path lines := by
  obtain ⟨outputs, hfilled, hfiles⟩ := hrewrites
  intro format hformat text htext
  refine hfilled.read_of_agrees (h format hformat text htext) (hlog format hformat) ?_
  exact fun o ho hplace => (hfiles o ho).text_eq htext hplace

/-! ## The lines of a story are written -/

theorem run_log (level : LogLevel) (message : String) (context : List (CodePoints × Json)) (u : World) :
    (s.log level message context).run.run u =
      (.ok (), s.record { level, message, context := .ofJson context } u) := rfl

/-- A story that is plain text is read first. -/
theorem run_writeStory {content : String} (hplan : StoryFormat.plan usernames ≠ [])
    (hplain : isPlainText path = true) (hread : u.read path = .ok content) :
    (s.writeStory usernames path outDir ignoreEmpty).run.run u =
      (s.writeLines usernames path outDir ignoreEmpty (Story.lines content)).run.run u := by
  have hdocument : (s.readDocument path).run.run u = (.ok (Text.dropMark content), u) := by
    rw [readDocument, if_pos hplain, run_get, hread]
    rfl
  rw [writeStory_eq hplan, run_bind_of_ok hdocument, Story.lines_dropMark]

theorem storyText_eq {format : StoryFormat} {text : String} (h : text ∈ Story.text? lines format) :
    s.storyText lines format = pure text := by
  unfold storyText
  simp only [List.isEmpty_iff]
  cases format with
  | txt | md =>
    cases h
    split_ifs <;> rfl
  | rtf => cases h

/-- The converter makes rich text of a story with some lines, unless it is empty. -/
def Converts (s : Setup) (lines : List String) : Prop :=
  lines ≠ [] → ∀ w, ∃ document,
    s.converter.convertToRichText w (Story.richTextSource lines) .story = .ok document

theorem exists_run_storyText {format : StoryFormat} (h : format = .rtf → s.Converts lines)
    (w : World) : ∃ text w', (s.storyText lines format).run.run w = (.ok text, w') := by
  cases htext : Story.text? lines format with
  | some text =>
    rw [storyText_eq htext]
    exact ⟨text, w, rfl⟩
  | none =>
    cases format with
    | txt | md => cases htext
    | rtf =>
      unfold storyText
      simp only [List.isEmpty_iff]
      split_ifs with hempty
      · exact ⟨"", w, rfl⟩
      · obtain ⟨document, hdocument⟩ := h rfl hempty w
        rw [run_get, hdocument]
        exact ⟨document, _, rfl⟩

namespace Rewrites

theorem refl : s.Rewrites outDir path lines v v := ⟨[], .start, by simp⟩

theorem obeys_log (level : LogLevel) (message : String) (context : List (CodePoints × Json)) :
    Obeys (s.Rewrites outDir path lines v) (fun _ => True) (s.log level message context) :=
  .modify fun _ ⟨outputs, hfilled, hfiles⟩ => ⟨outputs, hfilled.record _, hfiles⟩

theorem obeys_ask (call : ConverterCall) (answer : Except ConvertError String) :
    Obeys (s.Rewrites outDir path lines v) (fun _ => True) (ask call answer) := by
  refine .bind (.modify fun _ ⟨outputs, hfilled, hfiles⟩ => ⟨outputs, hfilled.ask call, hfiles⟩)
    fun _ => ?_
  cases answer with
  | ok text => exact .pure _
  | error e => exact .throw trivial

theorem obeys_write {o : Output} (ho : IsFile path lines o) :
    Obeys (s.Rewrites outDir path lines v) (fun _ => True) (write (o.path outDir) o.text) := by
  refine .attempt ?_ fun _ _ _ => trivial
  rintro w w' ⟨outputs, hfilled, hfiles⟩ hwrite
  exact ⟨_, hfilled.write o hwrite,
    List.forall_mem_append.2 ⟨hfiles, List.forall_mem_singleton.2 ho⟩⟩

theorem obeys_writeFormat (format : StoryFormat) :
    Obeys (s.Rewrites outDir path lines v) (fun _ => True)
      (s.writeFormat outDir (Path.stem path) lines format) := by
  have hwrite : ∀ text, (∀ text' ∈ Story.text? lines format, text = text') →
      Obeys (s.Rewrites outDir path lines v) (fun _ => True)
        (write (storyPath outDir path format) text) := fun text htext =>
    obeys_write (o := ⟨Path.stem path ++ "." ++ format.name, text⟩) ⟨format, rfl, htext⟩
  have hdone : Obeys (s.Rewrites outDir path lines v) (fun _ => True) do
      s.log .info "Story file written"
        [("format", .string format.name), ("path", .string (storyPath outDir path format))]
      return [storyPath outDir path format] := .bind (obeys_log _ _ _) fun _ => .pure _
  unfold writeFormat
  refine .ite (.bind (obeys_log _ _ _) fun _ => .pure _) ?_
  cases htext : Story.text? lines format with
  | some text =>
    rw [storyText_eq htext, pure_bind]
    refine .bind (hwrite text fun text' htext' => ?_) fun _ => hdone
    exact Option.mem_unique htext htext'
  | none =>
    have hask : Obeys (s.Rewrites outDir path lines v) (fun _ => True)
        (s.storyText lines format) := by
      unfold storyText
      refine .ite (.pure _) ?_
      cases format with
      | txt | md => exact .pure _
      | rtf => exact .get fun w => obeys_ask _ _
    refine .bind hask fun text => .bind (hwrite text ?_) fun _ => hdone
    rw [htext]
    exact fun _ h => nomatch h

/-- **Writing the lines of a story writes its files** and nothing else but the log, however it
    ends. -/
theorem obeys_writeLines (hstem : Path.stem path' = Path.stem path) :
    Obeys (s.Rewrites outDir path lines v) (fun _ => True)
      (s.writeLines usernames path' outDir ignoreEmpty lines) := by
  have hfiles : Obeys (s.Rewrites outDir path lines v) (fun _ => True) do
      let written ← (StoryFormat.plan usernames).mapM
        (s.writeFormat outDir (Path.stem path) lines)
      return written.flatten :=
    .bind (.mapM fun format _ => obeys_writeFormat format) fun _ => .pure _
  unfold writeLines
  rw [hstem]
  exact .ite (.ite (.throw_bind trivial) (.bind (obeys_log _ _ _) fun _ => hfiles)) hfiles

variable {format : StoryFormat}

/-- A file of a story is written where there is one already. -/
theorem exists_run_writeFormat (h : s.Rewrites outDir path lines u w)
    (hread : (format = .rtf && lines.isEmpty) = false →
      ∃ before, u.read (storyPath outDir path format) = .ok before)
    (hlog : s.logger.writes u (u.destination (storyPath outDir path format)) = false)
    (hconverts : format = .rtf → s.Converts lines) :
    ∃ written w', (s.writeFormat outDir (Path.stem path) lines format).run.run w =
      (.ok written, w') := by
  unfold writeFormat
  simp only
  split_ifs with hskip
  · exact ⟨[], _, rfl⟩
  · obtain ⟨before, hbefore⟩ := hread (by simpa using hskip)
    obtain ⟨text, w₁, htext⟩ := exists_run_storyText hconverts w
    obtain ⟨outputs, hfilled, -⟩ := h
    have hasked := (storyText_eq_ok outDir htext).2
    obtain ⟨now, hnow⟩ := (hfilled.trans hasked).exists_read hbefore hlog
    obtain ⟨w₂, hwrite⟩ := World.exists_write_of_read hnow (endsIn_storyPath outDir path format)
      (Path.isName_story path format) text
    have hrun : (write (storyPath outDir path format) text).run.run w₁ = (.ok (), w₂) := by
      rw [write, run_attempt, hwrite]
    rw [run_bind_of_ok htext]
    change ∃ written w', (write (storyPath outDir path format) text >>= _).run.run w₁ = _
    rw [run_bind_of_ok hrun]
    exact ⟨_, _, rfl⟩

end Rewrites

/-- **The lines of a story are written again** where they have been written before. -/
theorem exists_run_writeLines (hstem : Path.stem path' = Path.stem path)
    (hempty : lines = [] → ignoreEmpty = true) (hlog : s.LogsApart u usernames outDir path)
    (hread : ∀ format ∈ formats usernames lines, ∃ before,
      u.read (storyPath outDir path format) = .ok before)
    (hconverts : .rtf ∈ StoryFormat.plan usernames → s.Converts lines) :
    ∃ paths w, (s.writeLines usernames path' outDir ignoreEmpty lines).run.run u =
      (.ok paths, w) := by
  have hfiles : ∀ w, s.Rewrites outDir path lines u w → ∃ written w',
      ((StoryFormat.plan usernames).mapM (s.writeFormat outDir (Path.stem path) lines)).run.run w =
        (.ok written, w') := by
    intro w hw
    refine exists_run_mapM (fun format _ => Rewrites.obeys_writeFormat format)
      (fun format hformat w hw => ?_) hw
    refine hw.exists_run_writeFormat (fun hskip => ?_) (hlog format hformat) ?_
    · exact hread format (List.mem_filter.2 ⟨hformat, by rw [hskip]; rfl⟩)
    · rintro rfl
      exact hconverts hformat
  unfold writeLines
  rw [hstem]
  simp only [List.isEmpty_iff]
  split_ifs with hnone hstrict
  · rw [hempty hnone] at hstrict
    cases hstrict
  · obtain ⟨written, w, hrun⟩ := hfiles _ ⟨[], .record _ .start, by simp⟩
    refine ⟨written.flatten, w, ?_⟩
    rw [run_bind_of_ok (run_log _ _ _ u), run_bind_of_ok hrun]
    rfl
  · obtain ⟨written, w, hrun⟩ := hfiles u .refl
    refine ⟨written.flatten, w, ?_⟩
    rw [run_bind_of_ok hrun]
    rfl

/-! ## Processing a story again -/

/-- What comes of processing the plain text of a story again, where processing it has written the
    files `paths` and ended in the world `u`: each file holds the text for its lines, does so
    after another run, however that ends, and in any other directory as well. -/
structure Repeats (usernames : Usernames) (path outDir : String) (ignoreEmpty : Bool)
    (lines paths : List String) (u : World) : Prop where
  first : HasStory u usernames outDir path lines
  again : ∀ (s : Setup) (r : Except Failure (List String)) (w : World),
    s.LogsApart u usernames outDir path →
      (s.writeStory usernames (storyPath outDir path .txt) outDir ignoreEmpty).run.run u = (r, w) →
        HasStory w usernames outDir path lines ∧
          ((.rtf ∈ StoryFormat.plan usernames → s.Converts lines) → r = .ok paths)
  elsewhere : ∀ (s : Setup) (usernames' : Usernames) (outDir' : String) (ignoreEmpty' : Bool)
    (paths' : List String) (w : World), s.LogsApart u usernames' outDir' path →
      (s.writeStory usernames' (storyPath outDir path .txt) outDir' ignoreEmpty').run.run u =
        (.ok paths', w) → HasStory w usernames' outDir' path lines

theorem repeats_of_writeStory {paths : List String} {text : String}
    (h : (s.writeStory usernames path outDir ignoreEmpty).run.run v = (.ok paths, u))
    (htext : s.Extracts v path text) (htxt : .txt ∈ StoryFormat.plan usernames)
    (hstem : Path.stem path ≠ "") (hlog : s.LogsApart v usernames outDir path) :
    Repeats usernames path outDir ignoreEmpty (Story.lines text) paths u := by
  have hfirst := hasStory_of_writeStory h htext hlog
  have hplain := isPlainText_storyPath outDir hstem
  obtain ⟨file, hfile⟩ : ∃ file, file ∈ Story.text? (Story.lines text) .txt := ⟨_, rfl⟩
  have hread := hfirst .txt htxt file hfile
  have hlines := Story.lines_of_text? hfile
  have hagain : ∀ s : Setup, s.Extracts u (storyPath outDir path .txt) (Text.dropMark file) :=
    fun s => ⟨fun _ => ⟨file, hread, rfl⟩, fun hnot => absurd (hplain.symm.trans hnot) (by decide)⟩
  refine ⟨hfirst, fun s' r w hlog' hrun => ?again,
    fun s' usernames' outDir' ignoreEmpty' paths' w hlog' hrun => ?elsewhere⟩
  case again =>
    have hsame : (s'.writeStory usernames (storyPath outDir path .txt) outDir ignoreEmpty).run.run u =
        (s'.writeLines usernames (storyPath outDir path .txt) outDir ignoreEmpty
          (Story.lines text)).run.run u := by
      rw [run_writeStory (List.ne_nil_of_mem htxt) hplain hread, hlines]
    have hkept : s'.Rewrites outDir path (Story.lines text) u w := by
      have hend : w = ((s'.writeLines usernames (storyPath outDir path .txt) outDir ignoreEmpty
          (Story.lines text)).run.run u).2 := by rw [← hsame, hrun]
      rw [hend]
      exact (Rewrites.obeys_writeLines (stem_storyPath outDir path .txt) u .refl).1
    refine ⟨hfirst.of_rewrites hkept hlog', fun hconverts => ?_⟩
    obtain ⟨paths', w', hok⟩ := exists_run_writeLines (stem_storyPath outDir path .txt)
      (ignoreEmpty_of_writeStory h htext) hlog' (exists_read_of_writeStory h htext hlog) hconverts
    rw [hrun, hok] at hsame
    cases hsame
    rw [paths_of_writeStory hrun (hagain s'), paths_of_writeStory h htext, storyPath_storyPath,
      Story.lines_dropMark, hlines]
  case elsewhere =>
    have hholds := hasStory_of_writeStory hrun (hagain s')
    simp only [LogsApart, HasStory, storyPath_storyPath, Story.lines_dropMark, hlines] at hholds
    exact hholds hlog'

end Setup

namespace Story

/-- **The lines of a story are those of its text, tidied**: they have no white space around them
    and are read again from what is written of them, so processing the plain text of a story
    again makes the same files. -/
theorem lines_exact (text : String) :
    (∀ rs, Tidied ((Text.lines text).map Text.trim) rs ↔ rs = lines text) ∧
      (∀ line ∈ lines text, IsClean line) ∧
      lines (plainText (lines text)) = lines text ∧
      lines ("\n".intercalate (lines text)) = lines text ∧
      ∀ (s : Setup) (usernames : Usernames) (path outDir : String) (ignoreEmpty : Bool)
        (paths : List String) (v u : World),
        (s.writeStory usernames path outDir ignoreEmpty).run.run v = (.ok paths, u) →
          s.Extracts v path text → .txt ∈ StoryFormat.plan usernames → Path.stem path ≠ "" →
            s.LogsApart v usernames outDir path →
              Setup.Repeats usernames path outDir ignoreEmpty (lines text) paths u :=
  ⟨fun _ => tidied_lines_iff, fun _ => isClean_of_mem_lines, lines_plainText text,
    lines_intercalate text, fun _ _ _ _ _ _ _ _ h htext htxt hstem hlog =>
      Setup.repeats_of_writeStory h htext htxt hstem hlog⟩

/-- A story with blank lines and a star, in two formats. -/
theorem lines_exact_starred :
    let s := Setup.silent
    let usernames : Usernames := [("furaffinity", "u"), ("weasyl", "u")]
    let v := World.ofTree "/w" ⟨[(["t.txt"], .file " a\r\n \n\nb* \n"), (["out"], .directory)]⟩
    ∃ u, (s.writeStory usernames "t.txt" "out" false).run.run v =
        (.ok ["out/t.txt", "out/t.md"], u) ∧ ∃ w,
      (s.writeStory usernames "out/t.txt" "out" false).run.run u =
        (.ok ["out/t.txt", "out/t.md"], w) ∧
      w.read "out/t.txt" = .ok "a\r\n\r\nb*\r\n" ∧
        w.read "out/t.md" = .ok "a\r\n\r\nb\\*\r\n" := by
  intro s usernames v
  let text := " a\r\n \n\nb* \n"
  have hfirst : ((s.writeStory usernames "t.txt" "out" false).run.run v).1.toOption.map id =
      some ["out/t.txt", "out/t.md"] := by decide +kernel
  obtain ⟨paths, rfl, hrun⟩ := Run.exists_ok_of_map hfirst
  have htext : s.Extracts v "t.txt" text := by
    refine ⟨fun _ => ⟨text, by decide +kernel, by decide +kernel⟩, fun hnot => ?_⟩
    exact absurd hnot (by decide +kernel)
  obtain ⟨-, -, -, -, hrepeats⟩ := lines_exact text
  have hagain := hrepeats s usernames "t.txt" "out" false _ v _ hrun htext (by decide)
    (by decide +kernel) fun _ _ => rfl
  refine ⟨_, hrun, ?_⟩
  generalize ((s.writeStory usernames "t.txt" "out" false).run.run v).2 = u at hagain
  cases hsecond : (s.writeStory usernames "out/t.txt" "out" false).run.run u with
  | mk r w =>
    have htxt : Setup.storyPath "out" "t.txt" .txt = "out/t.txt" := by decide +kernel
    have hmd : Setup.storyPath "out" "t.txt" .md = "out/t.md" := by decide +kernel
    have hunlogged : s.LogsApart u usernames "out" "t.txt" := fun _ _ => rfl
    obtain ⟨hfiles, hsuccess⟩ := hagain.again s r w hunlogged (htxt ▸ hsecond)
    have hpaths := hsuccess fun hrtf => absurd hrtf (by decide)
    have hplain := hfiles .txt (by decide) "a\r\n\r\nb*\r\n" (by decide +kernel)
    have hmarkdown := hfiles .md (by decide) "a\r\n\r\nb\\*\r\n" (by decide +kernel)
    rw [htxt] at hplain
    rw [hmd] at hmarkdown
    exact ⟨w, by rw [hpaths], hplain, hmarkdown⟩

/-- A story whose name is all extension is not read as plain text again, but by the converter; and
    one that the log is written into has more lines then. -/
theorem not_repeated_of_unnamed :
    let usernames : Usernames := [("furaffinity", "u")]
    let logging : Setup :=
      { Setup.silent with logger := { file := some "out/t.txt" }, writable := rfl }
    let v := World.ofTree "/w" ⟨[([".a.txt"], .file "x"), (["t.txt"], .file "x"),
      (["out"], .directory)]⟩
    (∃ u, (Setup.silent.writeStory usernames ".a.txt" "out" true).run.run v =
        (.ok ["out/.txt"], u) ∧ u.read "out/.txt" = .ok "x\r\n" ∧
      ∃ w, (Setup.silent.writeStory usernames "out/.txt" "out" true).run.run u =
        (.ok ["out/.txt"], w) ∧ w.read "out/.txt" = .ok "") ∧
      ∃ u, (logging.writeStory usernames "t.txt" "out" true).run.run v =
        (.ok ["out/t.txt"], u) ∧ u.read "out/t.txt" ≠ .ok "x\r\n" := by
  intro usernames logging v
  have hfirst : ((Setup.silent.writeStory usernames ".a.txt" "out" true).run.run v).1.toOption.map
      id = some ["out/.txt"] := by decide +kernel
  obtain ⟨_, rfl, hrun⟩ := Run.exists_ok_of_map hfirst
  have hsecond : ((Setup.silent.writeStory usernames "out/.txt" "out" true).run.run
      ((Setup.silent.writeStory usernames ".a.txt" "out" true).run.run v).2).1.toOption.map id =
        some ["out/.txt"] := by decide +kernel
  obtain ⟨_, rfl, hagain⟩ := Run.exists_ok_of_map hsecond
  have hlogged : ((logging.writeStory usernames "t.txt" "out" true).run.run v).1.toOption.map id =
      some ["out/t.txt"] := by decide +kernel
  obtain ⟨_, rfl, hlog⟩ := Run.exists_ok_of_map hlogged
  refine ⟨⟨_, hrun, ?first, ?again⟩, _, hlog, ?logged⟩
  case first => decide +kernel
  case again => exact ⟨_, hagain, by decide +kernel⟩
  case logged => decide +kernel

end Story

end Crosspost
