/-
  What filling an output directory does to the world.

  All that it does is to log, to ask the converter, to write files into the
  directory and to copy files into it.

  * `Upload.fill_eq`: the story is written first, then the descriptions and the copies;
  * `Stable s outDir N P`: each of these steps keeps `P`, for files with names in
    `N`;
  * `Raises s outDir I N E`: each of them fails only with errors in `E`, for inputs in `I`,
    and `RaisesStory`: those do that a story is written in;
  * `Upload.fill_obeys_of`: **then filling the directory keeps `P`, however it ends**, and
    fails only with errors in `E`; `Upload.fill_obeys`: it fails with none of the errors
    that come before it (`Failure.isEarly`).
-/
import Crosspost.Proofs.Description.Generating
import Crosspost.Proofs.Workspace.Paths
import Crosspost.Proofs.Workspace.Runs
import Crosspost.Upload.Run

namespace Crosspost

/-- Whether a failure is one of those that come before the output directory is
    touched. -/
def Failure.isEarly : Failure → Bool
  | usernames _ | flags _ => true
  | _ => false

/-- The steps of filling a directory keep `P`, where the names of the files are in
    `N`. -/
structure Stable (s : Setup) (outDir : String) (N : String → Prop) (P : World → Prop) : Prop where
  record : ∀ event w, P w → P (s.record event w)
  ask : ∀ call w, P w → P { w with calls := w.calls ++ [call] }
  write : ∀ name content w w', N name → P w →
    w.write (Path.join outDir name) content = .ok w' → P w'
  copy : ∀ file w, N (Path.basename file) → P w →
    P (w.copy file (Path.join outDir (Path.basename file))).2

/-- A converter has no answer to something, for a reason `e`. -/
def Converter.Throws (c : Converter) (e : ConvertError) : Prop :=
  (∃ w path, c.extractText w path = .error e) ∨
    ∃ w text styles, c.convertToRichText w text styles = .error e

/-- The steps of writing a story fail only with errors in `E`, where the paths of the inputs
    are in `I` and the names of the files in `N`. -/
structure RaisesStory (s : Setup) (outDir : String) (I N : String → Prop) (E : Failure → Prop) :
    Prop where
  story : ∀ e, E (.story e)
  read : ∀ path (w : World) e, I path → w.read path = .error e → E (.system e)
  convert : ∀ e, s.converter.Throws e → E (.ofConvert e)
  write : ∀ name content (w : World) e, N name →
    w.write (Path.join outDir name) content = .error e → E (.system e)

/-- All steps of filling a directory do so. -/
structure Raises (s : Setup) (outDir : String) (I N : String → Prop) (E : Failure → Prop) : Prop
    extends RaisesStory s outDir I N E where
  emptySource : ∀ e, E (.emptySource e)
  generate : ∀ usernames flags source e,
    Generated.ofSource s.registry usernames flags source = .error e → E (.ofGenerate e)
  copy : ∀ file (w : World) e, I file → N (Path.basename file) →
    (w.copy file (Path.join outDir (Path.basename file))).1 = .error e → E (.system e)

/-! ## Names of files -/

namespace Path

theorem isPlain_basename (path : String) : IsPlain (basename path) := by
  unfold basename
  cases h : ((names path).filter (· != "")).getLast? with
  | none => simp [IsPlain]
  | some name =>
    have hm : name ∈ (names path).filter (· != "") := List.mem_of_getLast? h
    exact isPlain_of_mem_names (List.mem_of_mem_filter hm)

/-- The descriptions for the known destinations have plain names. -/
theorem isPlain_builtin : ∀ site ∈ Registry.builtin.sites, IsPlain site.outputFile := by
  unfold IsPlain
  decide

/-- The name of the file of a story. -/
theorem isPlain_story (path : String) (format : StoryFormat) :
    IsPlain (stem path ++ "." ++ format.name) := by
  have hstem : '/' ∉ (stem path).toList := by
    rw [stem, String.toList_ofList]
    exact fun h => isPlain_basename path ((List.takeWhile_prefix _).subset h)
  have hformat : '/' ∉ format.name.toList := by cases format <;> decide
  simp [IsPlain, hstem, hformat]

end Path

/-! ## Steps -/

theorem Failure.not_isEarly_ofConvert (e : ConvertError) : (ofConvert e).isEarly = false := by
  cases e <;> rfl

theorem Failure.not_isEarly_ofGenerate (e : GenerateError) : (ofGenerate e).isEarly = false := by
  cases e <;> rfl

/-- None of the steps fails with an error that comes before them. -/
theorem raises_late (s : Setup) (outDir : String) (N : String → Prop) :
    Raises s outDir (fun _ => True) N (·.isEarly = false) where
  story _ := rfl
  emptySource _ := rfl
  read _ _ _ _ _ := rfl
  convert e _ := Failure.not_isEarly_ofConvert e
  generate _ _ _ e _ := Failure.not_isEarly_ofGenerate e
  write _ _ _ _ _ _ := rfl
  copy _ _ _ _ _ _ := rfl

theorem stable_true (s : Setup) (outDir : String) (N : String → Prop) :
    Stable s outDir N fun _ => True where
  record _ _ _ := trivial
  ask _ _ _ := trivial
  write _ _ _ _ _ _ _ := trivial
  copy _ _ _ _ := trivial

namespace Stable

open Run

variable {s : Setup} {outDir : String} {N : String → Prop} {P : World → Prop}

theorem recordAll (h : Stable s outDir N P) (events : List LogEvent) (w : World) (hw : P w) :
    P (s.recordAll events w) := by
  unfold Setup.recordAll
  induction events generalizing w with
  | nil => exact hw
  | cons event events ih => exact ih _ (h.record event w hw)

variable {E : Failure → Prop}

theorem obeys_log (h : Stable s outDir N P) (level : LogLevel) (message : String)
    (context : List (CodePoints × Json)) : Obeys P E (s.log level message context) :=
  .modify fun w hw => h.record _ w hw

theorem obeys_ask (h : Stable s outDir N P) (call : ConverterCall)
    {answer : Except ConvertError String} (ha : ∀ e, answer = .error e → E (.ofConvert e)) :
    Obeys P E (Setup.ask call answer) := by
  refine .bind (.modify fun w hw => h.ask call w hw) fun _ => ?_
  cases answer with
  | ok text => exact .pure _
  | error e => exact .throw (ha e rfl)

/-- What follows the warning about an empty document, which may also be an error. -/
theorem obeys_unlessEmpty (h : Stable s outDir N P) {α : Type} {empty strict : Prop}
    [Decidable empty] [Decidable strict] {e : Failure} (he : E e) (message : String)
    {x : Run Failure α} (hx : Obeys P E x) :
    Obeys P E (if empty then
      if strict then do
        throw e
        s.log .warn message
        x
      else do
        s.log .warn message
        x
    else x) :=
  .ite (.ite (.throw_bind he) (.bind (h.obeys_log _ _ _) fun _ => hx)) hx

variable {I : String → Prop}

section Story

variable (hE : RaisesStory s outDir I N E)

include hE

theorem obeys_write (h : Stable s outDir N P) {name : String} (hn : N name) (content : String) :
    Obeys P E (Setup.write (Path.join outDir name) content) :=
  .attempt (fun w w' hw hwrite => h.write name content w w' hn hw hwrite)
    fun w e he => hE.write name content w e hn he

theorem obeys_readDocument (h : Stable s outDir N P) {path : String} (hi : I path) :
    Obeys P E (s.readDocument path) := by
  unfold Setup.readDocument
  split_ifs
  · refine .get fun w => ?_
    split
    · exact .pure _
    · next e he => exact .throw (hE.read path w e hi he)
  · exact .get fun w => h.obeys_ask _ fun e he => hE.convert e (.inl ⟨w, path, he⟩)

theorem obeys_storyText (h : Stable s outDir N P) (lines : List String) (format : StoryFormat) :
    Obeys P E (s.storyText lines format) := by
  unfold Setup.storyText
  split_ifs
  · exact .pure _
  · cases format with
    | txt => exact .pure _
    | md => exact .pure _
    | rtf =>
      exact .get fun w => h.obeys_ask _ fun e he => hE.convert e (.inr ⟨w, _, .story, he⟩)

theorem obeys_writeFormat (h : Stable s outDir N P) {stem : String} {format : StoryFormat}
    (hn : N (stem ++ "." ++ format.name)) (lines : List String) :
    Obeys P E (s.writeFormat outDir stem lines format) := by
  simp only [Setup.writeFormat]
  split_ifs
  · exact .bind (h.obeys_log _ _ _) fun _ => .pure _
  · exact .bind (h.obeys_storyText hE lines format) fun text =>
      .bind (h.obeys_write hE hn text) fun _ => .bind (h.obeys_log _ _ _) fun _ => .pure _

theorem obeys_writeStory (h : Stable s outDir N P) {path : String} (hi : I path)
    (hn : ∀ format : StoryFormat, N (Path.stem path ++ "." ++ format.name)) (usernames : Usernames)
    (ignoreEmpty : Bool) : Obeys P E (s.writeStory usernames path outDir ignoreEmpty) := by
  simp only [Setup.writeStory]
  refine .ite (.throw_bind (hE.story _)) (.bind (h.obeys_readDocument hE hi) fun text => ?_)
  refine h.obeys_unlessEmpty (hE.story _) _ (.bind (.mapM fun format _ => ?_) fun _ => .pure _)
  exact h.obeys_writeFormat hE (hn format) _

end Story

variable (hE : Raises s outDir I N E)

include hE

theorem obeys_writeDescriptions (h : Stable s outDir N P)
    (hn : ∀ site ∈ s.registry.sites, N site.outputFile) (usernames : Usernames)
    (flags : List String) {path : String} (hi : I path) (ignoreEmpty : Bool) :
    Obeys P E (s.writeDescriptions usernames flags path outDir ignoreEmpty) := by
  simp only [Setup.writeDescriptions]
  refine .bind (h.obeys_readDocument hE.toRaisesStory hi) fun source =>
    h.obeys_unlessEmpty (hE.emptySource _) _ ?_
  cases hg : Generated.ofSource s.registry usernames flags source with
  | error e =>
    exact .bind (.modify fun w hw => h.recordAll _ w hw) fun _ =>
      .throw (hE.generate usernames flags source e hg)
  | ok generated =>
    refine .bind (.modify fun w hw => h.recordAll _ w hw) fun _ => .bind (.mapM fun d hd => ?_)
      fun _ => .bind (h.obeys_log _ _ _) fun _ => .pure _
    obtain ⟨site, hsite, he⟩ := Generated.fileName_of_ofSource hg d hd
    have hname : N d.fileName := he ▸ hn site hsite
    exact .bind (h.obeys_write hE.toRaisesStory hname d.text) fun _ => .pure _

theorem obeys_copyFile (h : Stable s outDir N P) {file : String} (hi : I file)
    (hn : N (Path.basename file)) : Obeys P E (Setup.copyFile outDir file) := by
  intro w hw
  have hcopy := h.copy file w hn hw
  simp only [Setup.copyFile]
  rw [run_get]
  cases hc : w.copy file (Path.join outDir (Path.basename file)) with
  | mk result w' =>
    rw [hc] at hcopy
    cases result with
    | ok u => exact ⟨hcopy, by rintro _ ⟨⟩⟩
    | error e =>
      refine ⟨hcopy, ?_⟩
      rintro _ ⟨⟩
      exact hE.copy file w e hi hn (congrArg Prod.fst hc)

end Stable

namespace Upload

/-- The files of the story, if there is one. -/
def storyFiles (s : Setup) (a : Arguments) (usernames : Usernames) (outDir : String) :
    Run Failure (List String) :=
  match a.storyPath? with
  | some path => s.writeStory usernames path outDir a.ignoreEmptyFiles
  | none => pure []

/-- The descriptions, if one is given, with their files. -/
def descriptionFiles (s : Setup) (a : Arguments) (usernames : Usernames) (flags : List String)
    (outDir : String) : Run Failure (List SiteDescription × List String) :=
  match a.descriptionPath? with
  | some path => s.writeDescriptions usernames flags path outDir a.ignoreEmptyFiles
  | none => pure ([], [])

theorem fill_eq (s : Setup) (a : Arguments) (usernames : Usernames) (flags : List String)
    (outDir : String) : fill s a usernames flags outDir = do
      let story ← storyFiles s a usernames outDir
      let (descriptions, files) ← descriptionFiles s a usernames flags outDir
      let copies ← Setup.copyFiles outDir a.files
      return ⟨story ++ files ++ copies, descriptions⟩ := by
  unfold fill storyFiles descriptionFiles
  cases a.storyPath? <;> cases a.descriptionPath? <;> rfl

theorem storyFiles_obeys {s : Setup} {a : Arguments} {outDir : String} {I N : String → Prop}
    {P : World → Prop} {E : Failure → Prop} (h : Stable s outDir N P)
    (hE : RaisesStory s outDir I N E) (hi : ∀ path, a.storyPath? = some path → I path)
    (hn : ∀ path ∈ a.storyPath?, ∀ format : StoryFormat,
      N (Path.stem path ++ "." ++ format.name)) (usernames : Usernames) :
    Run.Obeys P E (storyFiles s a usernames outDir) := by
  unfold storyFiles
  cases hpath : a.storyPath? with
  | none => exact .pure _
  | some path =>
    exact h.obeys_writeStory hE (hi path hpath) (hn path hpath) usernames a.ignoreEmptyFiles

/-- **Filling the output directory keeps what its steps keep**, and fails with nothing but
    what they fail with. -/
theorem fill_obeys_of {s : Setup} {a : Arguments} {outDir : String} {I N : String → Prop}
    {P : World → Prop} {E : Failure → Prop} (h : Stable s outDir N P)
    (hE : Raises s outDir I N E) (hinputs : ∀ path, a.storyPath? = some path ∨
      a.descriptionPath? = some path ∨ path ∈ a.files → I path)
    (hstory : ∀ path ∈ a.storyPath?, ∀ format : StoryFormat,
      N (Path.stem path ++ "." ++ format.name))
    (hn : ∀ site ∈ s.registry.sites, N site.outputFile)
    (hfiles : ∀ file ∈ a.files, N (Path.basename file)) (usernames : Usernames)
    (flags : List String) : Run.Obeys P E (fill s a usernames flags outDir) := by
  have hwrite : Run.Obeys P E (storyFiles s a usernames outDir) :=
    storyFiles_obeys h hE.toRaisesStory (fun path hpath => hinputs path (.inl hpath)) hstory
      usernames
  have hdescribe : Run.Obeys P E (descriptionFiles s a usernames flags outDir) := by
    unfold descriptionFiles
    cases hpath : a.descriptionPath? with
    | none => exact .pure _
    | some path =>
      exact h.obeys_writeDescriptions hE hn usernames flags (hinputs path (.inr (.inl hpath)))
        a.ignoreEmptyFiles
  have hcopies : Run.Obeys P E (Setup.copyFiles outDir a.files) :=
    .mapM fun file hfile =>
      h.obeys_copyFile hE (hinputs file (.inr (.inr hfile))) (hfiles file hfile)
  rw [fill_eq]
  exact hwrite.bind fun _ => hdescribe.bind fun _ => hcopies.bind fun _ => .pure _

/-- Filling the output directory fails with none of the errors that come before it. -/
theorem fill_obeys {s : Setup} {a : Arguments} {outDir : String} {N : String → Prop}
    {P : World → Prop} (h : Stable s outDir N P)
    (hstory : ∀ path ∈ a.storyPath?, ∀ format : StoryFormat,
      N (Path.stem path ++ "." ++ format.name))
    (hn : ∀ site ∈ s.registry.sites, N site.outputFile)
    (hfiles : ∀ file ∈ a.files, N (Path.basename file)) (usernames : Usernames)
    (flags : List String) :
    Run.Obeys P (·.isEarly = false) (fill s a usernames flags outDir) :=
  fill_obeys_of h (raises_late s outDir N) (fun _ _ => trivial) hstory hn hfiles usernames flags

end Upload

end Crosspost
