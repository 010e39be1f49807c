/-
  What the steps of a run make.

  * `Setup.Extracts`, `Setup.Tells`: the text of a document, and that of a story in a
    format;
  * `Setup.writeStory_eq_ok`, `Setup.writeDescriptions_eq_ok`, `Setup.copyFiles_eq_ok`:
    a step that succeeds has written its outputs and nothing else but the log;
  * `Upload.Makes` tells what the outputs of a run are, and `Upload.fill_eq_ok`: **a
    directory that is filled holds just these**.
-/
import Crosspost.Proofs.Upload.Outputs

namespace Crosspost

namespace Setup

open Run

variable {s : Setup} {outDir path text : String} {u u' : World}

/-- The text of a document in a world: that of its file where it is plain text, else
    what the converter tells. -/
structure Extracts (s : Setup) (u : World) (path source : String) : Prop where
  plain : isPlainText path = true →
    ∃ content, u.read path = .ok content ∧ source = Text.dropMark content
  converted : isPlainText path = false → s.converter.extractText u path = .ok source

/-- The text of a story with some lines in a format; rich text is what the converter
    tells once some outputs have been written. -/
def Tells (s : Setup) (outDir : String) (v : World) (lines : List String) (format : StoryFormat)
    (text : String) : Prop :=
  if lines = [] then text = ""
  else match format with
    | .txt => text = Story.plainText lines
    | .md => text = Story.markdown lines
    | .rtf => ∃ earlier u, Filled s outDir v earlier u ∧
        s.converter.convertToRichText u (Story.richTextSource lines) .story = .ok text

/-- The formats in which a story with some lines is written: those that a configured
    site takes, but no rich text of an empty story. -/
def formats (usernames : Usernames) (lines : List String) : List StoryFormat :=
  (StoryFormat.plan usernames).filter fun format => !(format = .rtf && lines.isEmpty)

def IsStory (s : Setup) (outDir : String) (v : World) (stem : String) (lines : List String)
    (format : StoryFormat) (o : Output) : Prop :=
  o.name = stem ++ "." ++ format.name ∧ s.Tells outDir v lines format o.text

/-- Copies of files, each of what the file holds once the outputs before it have been
    written. -/
inductive Copied (s : Setup) (outDir : String) (v : World) :
    List Output → List String → List Output → Prop
  | nil {earlier : List Output} : Copied s outDir v earlier [] []
  | cons {earlier copies : List Output} {files : List String} {u : World} {file text : String} :
      Filled s outDir v earlier u → u.read file = .ok text →
        Copied s outDir v (earlier ++ [⟨Path.basename file, text⟩]) files copies →
          Copied s outDir v earlier (file :: files) (⟨Path.basename file, text⟩ :: copies)

theorem IsStory.of_filled {v : World} {stem : String} {lines : List String} {format : StoryFormat}
    {o : Output} {earlier : List Output} (hv : Filled s outDir v earlier u)
    (h : s.IsStory outDir u stem lines format o) : s.IsStory outDir v stem lines format o := by
  refine ⟨h.1, ?_⟩
  have htells := h.2
  unfold Tells at htells ⊢
  split_ifs at htells ⊢
  · exact htells
  · cases format with
    | txt | md => exact htells
    | rtf =>
      -- the converter is asked in the same world, after some more outputs
      obtain ⟨outputs, u', hu, htext⟩ := htells
      exact ⟨_, u', hv.trans hu, htext⟩

/-- The files of a story have plain names. -/
theorem isPlain_of_isStory {v : World} {path : String} {lines : List String}
    {formats : List StoryFormat} {outputs : List Output}
    (h : List.Forall₂ (s.IsStory outDir v (Path.stem path) lines) formats outputs) :
    ∀ o ∈ outputs, Path.IsPlain o.name := by
  intro o ho
  obtain ⟨format, -, hformat⟩ := exists_of_forall₂ h.flip ho
  exact hformat.1 ▸ Path.isPlain_story path format

theorem log_eq_ok {level : LogLevel} {message : String} {context : List (CodePoints × Json)}
    (h : (s.log level message context).run.run u = (.ok (), u')) : Filled s outDir u [] u' := by
  cases h
  exact .record _ .start

theorem ask_eq_ok (outDir : String) {call : ConverterCall} {answer : Except ConvertError String}
    (h : (ask call answer).run.run u = (.ok text, u')) :
    answer = .ok text ∧ Filled s outDir u [] u' := by
  cases answer with
  | error e => cases h
  | ok answer =>
    cases h
    exact ⟨rfl, .ask call .start⟩

theorem write_eq_ok {o : Output} (h : (write (o.path outDir) o.text).run.run u = (.ok (), u')) :
    Filled s outDir u [o] u' := by
  unfold write at h
  rw [run_attempt] at h
  split at h
  · next hw =>
    cases h
    exact .single hw
  · cases h

theorem readDocument_eq_ok (outDir : String)
    (h : (s.readDocument path).run.run u = (.ok text, u')) :
    s.Extracts u path text ∧ Filled s outDir u [] u' := by
  unfold readDocument at h
  split_ifs at h with hplain
  · rw [run_get] at h
    cases hread : u.read path with
    | error e =>
      rw [hread] at h
      cases h
    | ok content =>
      rw [hread] at h
      cases h
      refine ⟨⟨fun _ => ⟨content, hread, rfl⟩, fun hnot => ?_⟩, .start⟩
      exact absurd (hnot.symm.trans hplain) (by decide)
  · rw [run_get] at h
    obtain ⟨hanswer, hfilled⟩ := ask_eq_ok (s := s) outDir h
    exact ⟨⟨fun hyes => absurd hyes hplain, fun _ => hanswer⟩, hfilled⟩

theorem storyText_eq_ok (outDir : String) {lines : List String} {format : StoryFormat}
    (h : (s.storyText lines format).run.run u = (.ok text, u')) :
    s.Tells outDir u lines format text ∧ Filled s outDir u [] u' := by
  unfold storyText at h
  unfold Tells
  simp only [List.isEmpty_iff] at h
  split_ifs at h ⊢
  · cases h
    exact ⟨rfl, .start⟩
  · cases format with
    | txt =>
      cases h
      exact ⟨rfl, .start⟩
    | md =>
      cases h
      exact ⟨rfl, .start⟩
    | rtf =>
      rw [run_get] at h
      obtain ⟨hanswer, hfilled⟩ := ask_eq_ok (s := s) outDir h
      exact ⟨⟨[], u, .start, hanswer⟩, hfilled⟩

theorem writeFormat_eq_ok {stem : String} {lines : List String} {format : StoryFormat}
    {paths : List String}
    (h : (s.writeFormat outDir stem lines format).run.run u = (.ok paths, u')) :
    if format = .rtf && lines.isEmpty then paths = [] ∧ Filled s outDir u [] u'
    else ∃ o, s.IsStory outDir u stem lines format o ∧ paths = [o.path outDir] ∧
      Filled s outDir u [o] u' := by
  simp only [writeFormat] at h
  split_ifs at h ⊢
  · obtain ⟨_, v, hlog, h⟩ := run_bind_eq_ok h
    cases h
    exact ⟨rfl, log_eq_ok hlog⟩
  · obtain ⟨text, v, htext, h⟩ := run_bind_eq_ok h
    obtain ⟨_, v', hwrite, h⟩ := run_bind_eq_ok h
    obtain ⟨_, v'', hlog, h⟩ := run_bind_eq_ok h
    cases h
    obtain ⟨htells, hasked⟩ := storyText_eq_ok outDir htext
    have hwritten : Filled s outDir v [⟨stem ++ "." ++ format.name, text⟩] v' := write_eq_ok hwrite
    exact ⟨_, ⟨rfl, htells⟩, rfl, (hasked.trans hwritten).trans (log_eq_ok hlog)⟩

theorem writeFormats_eq_ok {stem : String} {lines : List String} {formats : List StoryFormat}
    {paths : List (List String)}
    (h : (formats.mapM (s.writeFormat outDir stem lines)).run.run u = (.ok paths, u')) :
    ∃ outputs, List.Forall₂ (s.IsStory outDir u stem lines)
        (formats.filter fun format => !(format = .rtf && lines.isEmpty)) outputs ∧
      paths.flatten = outputs.map (·.path outDir) ∧ Filled s outDir u outputs u' := by
  induction formats generalizing u paths with
  | nil =>
    rw [List.mapM_nil] at h
    cases h
    exact ⟨[], .nil, rfl, .start⟩
  | cons format formats ih =>
    rw [List.mapM_cons] at h
    obtain ⟨first, v, hfirst, h⟩ := run_bind_eq_ok h
    obtain ⟨rest, v', hrest, h⟩ := run_bind_eq_ok h
    cases h
    obtain ⟨outputs, hstory, hpaths, hfilled⟩ := ih hrest
    have hformat := writeFormat_eq_ok hfirst
    rw [List.filter_cons]
    split_ifs at hformat with hskip
    · obtain ⟨rfl, hlogged⟩ := hformat
      simp only [hskip, Bool.not_true, Bool.false_eq_true, if_false]
      exact ⟨outputs, hstory.imp fun _ _ => IsStory.of_filled hlogged, hpaths,
        hlogged.trans hfilled⟩
    -- the other files are told from the world after this one, so from the one before it too
    · obtain ⟨o, ho, rfl, hwritten⟩ := hformat
      simp only [hskip, Bool.not_false, if_true]
      refine ⟨o :: outputs, .cons ho (hstory.imp fun _ _ => IsStory.of_filled hwritten), ?_,
        hwritten.trans hfilled⟩
      rw [List.flatten_cons, hpaths, List.map_cons, List.singleton_append]

/-- What follows the warning about an empty document. -/
theorem unlessEmpty_eq_ok (outDir : String) {α : Type} {empty strict : Prop} [Decidable empty]
    [Decidable strict] {e : Failure} {message : String} {x : Run Failure α} {a : α}
    (h : (if empty then
      if strict then do
        throw e
        s.log .warn message
        x
      else do
        s.log .warn message
        x
    else x : Run Failure α).run.run u = (.ok a, u')) :
    ∃ v, Filled s outDir u [] v ∧ x.run.run v = (.ok a, u') := by
  split_ifs at h
  · cases h
  · obtain ⟨_, v, hlog, h⟩ := run_bind_eq_ok h
    exact ⟨v, log_eq_ok hlog, h⟩
  · exact ⟨u, .start, h⟩

/-- **A story is written** in the formats that configured sites take. -/
theorem writeStory_eq_ok {usernames : Usernames} {ignoreEmpty : Bool} {paths : List String}
    (h : (s.writeStory usernames path outDir ignoreEmpty).run.run u = (.ok paths, u')) :
    StoryFormat.plan usernames ≠ [] ∧ ∃ source outputs, s.Extracts u path source ∧
      List.Forall₂ (s.IsStory outDir u (Path.stem path) (Story.lines source))
        (formats usernames (Story.lines source)) outputs ∧
      paths = outputs.map (·.path outDir) ∧ Filled s outDir u outputs u' := by
  simp only [writeStory] at h
  by_cases hplan : (StoryFormat.plan usernames).isEmpty = true
  · rw [if_pos hplan] at h
    cases h
  · rw [if_neg hplan] at h
    refine ⟨fun hnil => hplan (by rw [hnil]; rfl), ?_⟩
    obtain ⟨source, v, hread, h⟩ := run_bind_eq_ok h
    obtain ⟨hsource, hextracted⟩ := readDocument_eq_ok outDir hread
    obtain ⟨v', hwarned, h⟩ := unlessEmpty_eq_ok outDir h
    obtain ⟨written, v'', hwritten, h⟩ := run_bind_eq_ok h
    cases h
    obtain ⟨outputs, hstory, hpaths, hfilled⟩ := writeFormats_eq_ok hwritten
    have hstart := hextracted.trans hwarned
    exact ⟨source, outputs, hsource, hstory.imp fun _ _ => IsStory.of_filled hstart, hpaths,
      hstart.trans hfilled⟩

theorem writeDescription_eq_ok {descriptions : List SiteDescription} {paths : List String}
    (h : (descriptions.mapM (writeDescription outDir)).run.run u = (.ok paths, u')) :
    paths = (descriptions.map fun d => Output.mk d.fileName d.text).map (·.path outDir) ∧
      Filled s outDir u (descriptions.map fun d => ⟨d.fileName, d.text⟩) u' := by
  induction descriptions generalizing u paths with
  | nil =>
    rw [List.mapM_nil] at h
    cases h
    exact ⟨rfl, .start⟩
  | cons d descriptions ih =>
    rw [List.mapM_cons] at h
    obtain ⟨first, v, hfirst, h⟩ := run_bind_eq_ok h
    obtain ⟨rest, v', hrest, h⟩ := run_bind_eq_ok h
    cases h
    obtain ⟨rfl, hfilled⟩ := ih hrest
    obtain ⟨_, v'', hwrite, h⟩ := run_bind_eq_ok hfirst
    cases h
    have hwritten : Filled s outDir u [⟨d.fileName, d.text⟩] v := write_eq_ok hwrite
    exact ⟨rfl, hwritten.trans hfilled⟩

/-- **The descriptions are written** for all configured sites. -/
theorem writeDescriptions_eq_ok {usernames : Usernames} {flags : List String}
    {ignoreEmpty : Bool} {descriptions : List SiteDescription} {paths : List String}
    (h : (s.writeDescriptions usernames flags path outDir ignoreEmpty).run.run u =
      (.ok (descriptions, paths), u')) :
    ∃ source generated, s.Extracts u path source ∧
      Generated.ofSource s.registry usernames flags source = .ok generated ∧
      generated.descriptions = descriptions ∧
      paths = (descriptions.map fun d => Output.mk d.fileName d.text).map (·.path outDir) ∧
      Filled s outDir u (descriptions.map fun d => ⟨d.fileName, d.text⟩) u' := by
  simp only [writeDescriptions] at h
  obtain ⟨source, v, hread, h⟩ := run_bind_eq_ok h
  obtain ⟨hsource, hextracted⟩ := readDocument_eq_ok outDir hread
  obtain ⟨v', hwarned, h⟩ := unlessEmpty_eq_ok outDir h
  cases hg : Generated.ofSource s.registry usernames flags source with
  | error e =>
    rw [hg] at h
    cases h
  | ok generated =>
    rw [hg] at h
    obtain ⟨_, v₁, hevents, h⟩ := run_bind_eq_ok h
    obtain ⟨files, v₂, hfiles, h⟩ := run_bind_eq_ok h
    obtain ⟨_, v₃, hlog, h⟩ := run_bind_eq_ok h
    cases h
    cases hevents
    obtain ⟨hpaths, hfilled⟩ := writeDescription_eq_ok (s := s) hfiles
    have hstart := (hextracted.trans hwarned).recordAll generated.events
    have hdone := (hstart.trans hfilled).trans (log_eq_ok hlog)
    rw [List.append_nil] at hdone
    exact ⟨source, generated, hsource, hg, rfl, hpaths, hdone⟩

theorem copyFile_eq_ok {file : String} (h : (copyFile outDir file).run.run u = (.ok path, u')) :
    ∃ text, u.read file = .ok text ∧ path = Output.path outDir ⟨Path.basename file, text⟩ ∧
      Filled s outDir u [⟨Path.basename file, text⟩] u' := by
  simp only [copyFile] at h
  rw [run_get] at h
  cases hcopy : u.copy file (Path.join outDir (Path.basename file)) with
  | mk result v =>
    rw [hcopy] at h
    cases result with
    | error e => cases h
    | ok _ =>
      cases h
      obtain ⟨text, hread, hwrite⟩ := World.copy_eq_ok hcopy
      exact ⟨text, hread, rfl, .single hwrite⟩

theorem copyFiles_eq_ok {v : World} {earlier : List Output} {files paths : List String}
    (hv : Filled s outDir v earlier u)
    (h : (copyFiles outDir files).run.run u = (.ok paths, u')) :
    ∃ copies, Copied s outDir v earlier files copies ∧ paths = copies.map (·.path outDir) ∧
      Filled s outDir v (earlier ++ copies) u' := by
  unfold copyFiles at h
  -- all is told from `v`: each copy adds to what has been written since then
  induction files generalizing u earlier paths with
  | nil =>
    rw [List.mapM_nil] at h
    cases h
    exact ⟨[], .nil, rfl, by rwa [List.append_nil]⟩
  | cons file files ih =>
    rw [List.mapM_cons] at h
    obtain ⟨first, u₁, hfirst, h⟩ := run_bind_eq_ok h
    obtain ⟨rest, u₂, hrest, h⟩ := run_bind_eq_ok h
    cases h
    obtain ⟨text, hread, rfl, hwritten⟩ := copyFile_eq_ok (s := s) hfirst
    obtain ⟨copies, hcopied, rfl, hfilled⟩ := ih (hv.trans hwritten) hrest
    refine ⟨_, .cons hv hread hcopied, rfl, ?_⟩
    rwa [List.append_assoc, List.singleton_append] at hfilled

end Setup

/-! ## Filling a directory -/

namespace Upload

open Run

variable {s : Setup} {a : Arguments} {usernames : Usernames} {flags : List String}
  {outDir : String} {u v : World} {summary : Summary}

/-- The outputs of a run, by what they are made from. -/
structure Parts where
  story : List Output
  descriptions : List Output
  copies : List Output

/-- All outputs, in the order in which they are made. -/
def Parts.outputs (p : Parts) : List Output := p.story ++ p.descriptions ++ p.copies

/-- What the outputs are, of a run that begins to fill its output directory in the
    world `v`. -/
structure Makes (s : Setup) (a : Arguments) (usernames : Usernames) (flags : List String)
    (outDir : String) (v : World) (p : Parts) (summary : Summary) : Prop where
  story : ∀ path ∈ a.storyPath?, StoryFormat.plan usernames ≠ [] ∧ ∃ source,
    s.Extracts v path source ∧ List.Forall₂
      (s.IsStory outDir v (Path.stem path) (Story.lines source))
      (Setup.formats usernames (Story.lines source)) p.story
  noStory : a.storyPath? = none → p.story = []
  description : ∀ path ∈ a.descriptionPath?, ∃ u source generated,
    Filled s outDir v p.story u ∧ s.Extracts u path source ∧
      Generated.ofSource s.registry usernames flags source = .ok generated ∧
        summary.descriptions = generated.descriptions
  noDescription : a.descriptionPath? = none → summary.descriptions = []
  descriptions : p.descriptions = summary.descriptions.map fun d => ⟨d.fileName, d.text⟩
  copies : s.Copied outDir v (p.story ++ p.descriptions) a.files p.copies
  files : summary.files = p.outputs.map (·.path outDir)

theorem storyFiles_eq_ok {paths : List String}
    (h : (storyFiles s a usernames outDir).run.run v = (.ok paths, u)) :
    ∃ outputs, (∀ path ∈ a.storyPath?, StoryFormat.plan usernames ≠ [] ∧ ∃ source,
        s.Extracts v path source ∧ List.Forall₂
          (s.IsStory outDir v (Path.stem path) (Story.lines source))
          (Setup.formats usernames (Story.lines source)) outputs) ∧
      (a.storyPath? = none → outputs = []) ∧ paths = outputs.map (·.path outDir) ∧
        Filled s outDir v outputs u := by
  unfold storyFiles at h
  cases hpath : a.storyPath? with
  | none =>
    rw [hpath] at h
    cases h
    exact ⟨[], by simp, fun _ => rfl, rfl, .start⟩
  | some path =>
    rw [hpath] at h
    obtain ⟨hplan, source, outputs, hsource, hstory, hpaths, hfilled⟩ := Setup.writeStory_eq_ok h
    refine ⟨outputs, fun path' hpath' => ?_, by simp, hpaths, hfilled⟩
    obtain rfl : path = path' := Option.mem_some_iff.1 hpath'
    exact ⟨hplan, source, hsource, hstory⟩

theorem descriptionFiles_eq_ok {descriptions : List SiteDescription} {paths : List String}
    (h : (descriptionFiles s a usernames flags outDir).run.run v =
      (.ok (descriptions, paths), u)) :
    (∀ path ∈ a.descriptionPath?, ∃ source generated, s.Extracts v path source ∧
        Generated.ofSource s.registry usernames flags source = .ok generated ∧
          descriptions = generated.descriptions) ∧
      (a.descriptionPath? = none → descriptions = []) ∧
      paths = (descriptions.map fun d => Output.mk d.fileName d.text).map (·.path outDir) ∧
        Filled s outDir v (descriptions.map fun d => ⟨d.fileName, d.text⟩) u := by
  unfold descriptionFiles at h
  cases hpath : a.descriptionPath? with
  | none =>
    rw [hpath] at h
    cases h
    exact ⟨by simp, fun _ => rfl, rfl, .start⟩
  | some path =>
    rw [hpath] at h
    obtain ⟨source, generated, hsource, hg, hd, hpaths, hfilled⟩ :=
      Setup.writeDescriptions_eq_ok h
    refine ⟨fun path' hpath' => ?_, by simp, hpaths, hfilled⟩
    obtain rfl : path = path' := Option.mem_some_iff.1 hpath'
    exact ⟨source, generated, hsource, hg, hd.symm⟩

/-- **A directory is filled** with the story, the descriptions and the copies. -/
theorem fill_eq_ok (h : (fill s a usernames flags outDir).run.run v = (.ok summary, u)) :
    ∃ p, Makes s a usernames flags outDir v p summary ∧ Filled s outDir v p.outputs u := by
  rw [fill_eq] at h
  obtain ⟨story, v₁, hs, h⟩ := run_bind_eq_ok h
  obtain ⟨⟨descriptions, files⟩, v₂, hd, h⟩ := run_bind_eq_ok h
  obtain ⟨copied, v₃, hc, h⟩ := run_bind_eq_ok h
  cases h
  obtain ⟨outputs, hstory, hnone, rfl, hwritten⟩ := storyFiles_eq_ok hs
  obtain ⟨hdescription, hnone', rfl, hdescribed⟩ := descriptionFiles_eq_ok hd
  obtain ⟨copies, hcopies, rfl, hfilled⟩ := Setup.copyFiles_eq_ok (hwritten.trans hdescribed) hc
  refine ⟨⟨outputs, _, copies⟩, ⟨hstory, hnone, fun path hpath => ?_, hnone', rfl, hcopies, ?_⟩,
    hfilled⟩
  · obtain ⟨source, generated, hsource, hg, heq⟩ := hdescription path hpath
    exact ⟨v₁, source, generated, hwritten, hsource, hg, heq⟩
  · simp [Parts.outputs]

/-- The copies are named after their files. -/
theorem map_name_of_copied {earlier copies : List Output} {files : List String}
    (h : s.Copied outDir v earlier files copies) :
    copies.map Output.name = files.map Path.basename := by
  induction h with
  | nil => rfl
  | cons _ _ _ ih => rw [List.map_cons, List.map_cons, ih]

/-- All names are plain but those that registered sites give to their descriptions. -/
theorem Makes.name_cases {p : Parts} {o : Output}
    (h : Makes s a usernames flags outDir v p summary) (ho : o ∈ p.outputs) :
    Path.IsPlain o.name ∨ ∃ site ∈ s.registry.sites, o.name = site.outputFile := by
  rw [Parts.outputs, List.mem_append, List.mem_append] at ho
  obtain (ho | ho) | ho := ho
  · cases hpath : a.storyPath? with
    | none =>
      rw [h.noStory hpath] at ho
      cases ho
    | some path =>
      obtain ⟨-, source, -, hstory⟩ := h.story path hpath
      exact .inl (Setup.isPlain_of_isStory hstory o ho)
  · rw [h.descriptions] at ho
    obtain ⟨d, hd, rfl⟩ := List.mem_map.1 ho
    cases hpath : a.descriptionPath? with
    | none =>
      rw [h.noDescription hpath] at hd
      cases hd
    | some path =>
      obtain ⟨u, source, generated, -, -, hg, heq⟩ := h.description path hpath
      exact .inr (Generated.fileName_of_ofSource hg d (heq ▸ hd))
  · have hmem := List.mem_map_of_mem (f := Output.name) ho
    rw [map_name_of_copied h.copies] at hmem
    obtain ⟨file, -, heq⟩ := List.mem_map.1 hmem
    exact .inl (heq ▸ Path.isPlain_basename file)

end Upload

end Crosspost
