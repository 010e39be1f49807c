/-
  What is told about runs that fail.

  * `Failure.Tells f text`: `f` is one of the failures that a run is meant to end with, and
    `text` is what the user is told;
  * `Generated.exists_parse_of_eq_error`: descriptions for the known destinations fail only for
    a malformed source;
  * `Command.Invocation.Starts`: a command has checked its arguments and begins to make files;
    `Command.report_of_starts` is what it reports when it fails to;
  * `Upload.told_of_run_eq_error`: **a failed run of checked arguments tells the user why**, or
    comes from the operating system.
-/
import Crosspost.Command
import Crosspost.Proofs.Description.Descent
import Crosspost.Proofs.Description.Independence
import Crosspost.Proofs.Upload.Inputs
import Crosspost.Proofs.Workspace.Faults

namespace Crosspost

/-! ## Failures -/

/-- The kinds of errors that a run is meant to end with. -/
def DiagnosticKind.ofRuns : List DiagnosticKind :=
  [usernames, flags, parse, story, emptySource, conversion, style]

namespace Failure

/-- The failure is of a kind that runs are meant to end with, and there is a text for it. -/
def Tells (f : Failure) (text : String) : Prop :=
  ∃ d ∈ f.diagnostic?, d.kind ∈ DiagnosticKind.ofRuns ∧ d.described? = some text

/-- There is a text for the failure, or the operating system has refused something. -/
def IsTold (f : Failure) : Prop :=
  (∃ text, f.Tells text) ∨ ∃ e, f = .system e ∧ e.isSystem = true

/-- A failure that runs are meant to end with, or whatever the converter `c` passes on. -/
def IsExpected (c : Converter) (f : Failure) : Prop :=
  f.IsTold ∨ ∃ e, f = .system e ∧ c.Throws (.system e)

/-- The text about the failure that a computation ends with. -/
def text? {α : Type} : Except Failure α → Option String
  | .error f => f.diagnostic?.bind Diagnostic.described?
  | .ok _ => none

variable {f : Failure} {c : Converter}

theorem Tells.described_eq {text : String} (h : f.Tells text) :
    f.diagnostic?.bind Diagnostic.described? = some text := by
  obtain ⟨d, hd, -, htext⟩ := h
  rw [Option.mem_def.1 hd]
  exact htext

theorem isExpected_of_kind (kind : DiagnosticKind) (hkind : kind ∈ DiagnosticKind.ofRuns)
    (h : f.diagnostic?.map (·.kind) = some kind) : f.IsExpected c := by
  obtain ⟨d, hd, rfl⟩ := Option.map_eq_some_iff.1 h
  have hsome : ∃ text, d.described? = some text := by
    unfold Diagnostic.described?
    generalize d.kind = kind at hkind ⊢
    cases kind <;> first | exact ⟨_, rfl⟩ | exact absurd hkind (by decide)
  obtain ⟨text, htext⟩ := hsome
  exact .inl (.inl ⟨text, d, hd, hkind, htext⟩)

theorem isExpected_of_isSystem {e : FsError} (h : e.isSystem = true) :
    (system e).IsExpected c := .inl (.inr ⟨e, rfl, h⟩)

theorem isExpected_ofConvert {e : ConvertError} (h : c.Throws e) : (ofConvert e).IsExpected c := by
  cases e with
  | conversion e => exact isExpected_of_kind .conversion (by decide) rfl
  | style e => exact isExpected_of_kind .style (by decide) rfl
  | system e => exact .inr ⟨e, rfl, h⟩

theorem not_isTold_nullCharacter (role path : String) :
    ¬ (system (.nullCharacter role path)).IsTold := by
  rintro (⟨text, htells⟩ | ⟨e, he, hsystem⟩)
  · cases htells.described_eq
  · cases he
    cases hsystem

theorem exists_run_eq_of_text? {α : Type} {x : Run Failure α} {w : World} {text : String}
    (h : text? (x.run.run w).1 = some text) :
    ∃ f w', x.run.run w = (.error f, w') ∧
      f.diagnostic?.bind Diagnostic.described? = some text := by
  cases hx : x.run.run w with
  | mk result w' =>
    rw [hx] at h
    cases result with
    | ok a => cases h
    | error f => exact ⟨f, w', rfl, h⟩

end Failure

/-! ## Steps of a run -/

theorem Path.isClear_builtin : ∀ site ∈ Registry.builtin.sites, IsClear site.outputFile := by
  decide

theorem Path.IsClear.story {path : String} (h : IsClear path) (format : StoryFormat) :
    IsClear (Path.stem path ++ "." ++ format.name) := by
  have hname : IsClear format.name := by cases format <;> decide
  have hdot : IsClear "." := by decide
  simp only [isClear_append, h.stem, hdot, hname, and_self]

/-- Nothing but a malformed source keeps descriptions from being made, where no site has the
    name of a member. -/
theorem Generated.exists_parse_of_eq_error {R : Registry} {usernames : Usernames}
    {flags : List String} {source : String} {e : GenerateError}
    (hR : ∀ site ∈ R.sites, Member.ofName? site.id = none)
    (h : ofSource R usernames flags source = .error e) : ∃ error, e = .parse error := by
  cases e with
  | parse error => exact ⟨error, rfl⟩
  | render error earlier =>
    obtain ⟨ns, hns, site, hsite, hrender⟩ := exists_of_ofSource_eq_error h
    obtain ⟨f, hf⟩ := (Document.render_eq_ok_iff (Document.every_sound hns) hsite usernames
      flags).2 (.inl (Usernames.obstacle?_of_not_member (hR site hsite)))
    rw [hf] at hrender
    cases hrender

/-- An output directory that cannot be opened is refused by the operating system. -/
theorem OutputDir.isSystem_prepare {path : String} {keep : Bool} {w : World} {e : FsError}
    (hp : Path.IsClear path) (h : (prepare path keep w).1 = .error e) : e.isSystem = true := by
  unfold prepare at h
  split at h
  · exact World.isSystem_makeDirs hp h
  · cases h
    rfl
  · exact World.isSystem_makeDirs hp h

namespace Upload

variable {s : Setup} {a : Arguments} {v w w' : World} {f : Failure} {dir path : String}

theorem isClear_of_check (ha : a.check v = []) (hpath : a.storyPath? = some path ∨
    a.descriptionPath? = some path ∨ path ∈ a.files) : Path.IsClear path := by
  have hinput : ∃ i : Input, i.path? a = some path := by
    obtain h | h | h := hpath
    · exact ⟨.story, h⟩
    · exact ⟨.description, h⟩
    · obtain ⟨n, hn⟩ := List.mem_iff_getElem?.1 h
      exact ⟨.file n, hn⟩
  obtain ⟨i, hi⟩ := hinput
  exact World.isClear_of_hasFile (Arguments.hasFile_of_check ha hi)

/-- Filling a directory fails in expected ways, where its path and those of the inputs are
    clear. -/
theorem raises_expected (hs : s.registry = .builtin) (hdir : Path.IsClear dir) :
    Raises s dir Path.IsClear Path.IsClear (·.IsExpected s.converter) where
  story _ := Failure.isExpected_of_kind .story (by decide) rfl
  emptySource _ := Failure.isExpected_of_kind .emptySource (by decide) rfl
  read _ _ _ hi h := Failure.isExpected_of_isSystem (World.isSystem_read hi h)
  convert _ h := Failure.isExpected_ofConvert h
  generate _ _ _ _ h := by
    obtain ⟨error, rfl⟩ :=
      Generated.exists_parse_of_eq_error (hs ▸ Registry.not_member_builtin) h
    exact Failure.isExpected_of_kind .parse (by decide) rfl
  write _ _ _ _ hn h := Failure.isExpected_of_isSystem (World.isSystem_write (hdir.join hn) h)
  copy _ _ _ hi hn h := Failure.isExpected_of_isSystem (World.isSystem_copy hi (hdir.join hn) h)

theorem fill_isExpected (hs : s.registry = .builtin) (ha : a.check v = [])
    (hdir : Path.IsClear dir) (usernames : Usernames) (flags : List String)
    (h : ((fill s a usernames flags dir).run.run w).1 = .error f) :
    f.IsExpected s.converter := by
  have hobeys := fill_obeys_of (a := a) (stable_true s dir Path.IsClear) (raises_expected hs hdir)
    (fun _ hpath => isClear_of_check ha hpath)
    (fun _ hpath format => (isClear_of_check ha (.inl hpath)).story format)
    (hs ▸ Path.isClear_builtin)
    (fun _ hfile => (isClear_of_check ha (.inr (.inr hfile))).basename) usernames flags
  exact (hobeys w trivial).2 f h

theorem loadUsernames_isExpected (h : ((loadUsernames s a).run.run w).1 = .error f) :
    f.IsExpected s.converter := by
  have hobeys : Run.Obeys (fun _ => True) (·.IsExpected s.converter) (loadUsernames s a) := by
    unfold loadUsernames
    refine .ite (.get fun u => ?_) (.pure _)
    split
    · exact .throw (Failure.isExpected_of_kind .usernames (by decide) rfl)
    · exact .bind (.modify fun _ _ => trivial) fun _ => .pure _
  exact (hobeys w trivial).2 f h

theorem loadFlags_isExpected (h : ((loadFlags s a).run.run w).1 = .error f) :
    f.IsExpected s.converter := by
  have hobeys : Run.Obeys (fun _ => True) (·.IsExpected s.converter) (loadFlags s a) := by
    unfold loadFlags
    split
    · exact .throw (Failure.isExpected_of_kind .flags (by decide) rfl)
    · exact .ite (.bind (.modify fun _ _ => trivial) fun _ => .pure _) (.pure _)
  exact (hobeys w trivial).2 f h

/-- A run fails in expected ways, stage by stage. -/
theorem run_isExpected (hs : s.registry = .builtin) (ha : a.check v = [])
    (hdir : Path.IsClear (outDir a w)) (h : (run s a).run.run w = (.error f, w')) :
    f.IsExpected s.converter := by
  have hrun := h
  obtain h | ⟨usernames, u, hnames, h⟩ := Run.run_bind_eq_error h
  · exact loadUsernames_isExpected (congrArg Prod.fst h)
  obtain h | ⟨flags, u', hflags, -⟩ := Run.run_bind_eq_error h
  · exact loadFlags_isExpected (congrArg Prod.fst h)
  -- the rest of the run is the use of its output directory
  rw [run_of_loads ⟨u, hnames, hflags⟩, OutputDir.run_use_eq] at hrun
  split at hrun
  · next e _ hprepare =>
    cases hrun
    exact Failure.isExpected_of_isSystem
      (OutputDir.isSystem_prepare hdir (congrArg Prod.fst hprepare))
  · split at hrun
    · cases hrun
    · next hfill =>
      cases hrun
      exact fill_isExpected hs ha hdir usernames flags (congrArg Prod.fst hfill)

end Upload

/-! ## The office program -/

namespace Office

variable {i : Installation} {w : World} {e : FsError}

theorem isSystem_prepare (ht : Path.IsClear i.temporary) (h : prepare i w = .error e) :
    e.isSystem = true := by
  have hwork : Path.IsClear (Path.join i.temporary "gallery-upload-rtf-XXXXXX") :=
    ht.join (by decide)
  obtain h | ⟨-, -, h⟩ := bind_eq_error.1 h
  · exact World.isSystem_route (hwork.join (by decide)) h
  obtain h | ⟨entry, -, h⟩ := bind_eq_error.1 h
  · exact World.isSystem_find hwork.dirname h
  · cases entry <;> cases h
    rfl

/-- A run of a program that fails is a failed conversion. -/
theorem run_ne_system (i : Installation) (w : World) (program work : String)
    (call : ConverterCall) (e : FsError) :
    run i w program work call ≠ .error (.system e) := by
  intro h
  unfold run at h
  dsimp only at h
  split at h
  · cases h
  · split at h <;> cases h

/-- The program passes on nothing but errors of the operating system, where texts are put into
    directories with clear paths. -/
theorem isSystem_of_throws {program work : String} (ht : Path.IsClear i.temporary)
    (h : (converter i program work).Throws (.system e)) : e.isSystem = true := by
  obtain ⟨w, path, h⟩ | ⟨w, text, styles, h⟩ := h
  · obtain h | ⟨r, -, h⟩ := bind_eq_error.1 h
    · exact absurd h (run_ne_system i w program work _ e)
    · cases h
  · obtain h | ⟨-, -, h⟩ := bind_eq_error.1 h
    · cases hp : prepare i w with
      | ok u =>
        rw [hp] at h
        cases h
      | error e' =>
        rw [hp] at h
        cases h
        exact isSystem_prepare ht hp
    obtain h | ⟨r, -, h⟩ := bind_eq_error.1 h
    · exact absurd h (run_ne_system i w program work _ e)
    · split at h
      · cases h
        rfl
      · next document _ =>
        cases hswap : StyleSheet.swap document styles.source styles.target <;>
          rw [hswap] at h <;> cases h

end Office

/-! ## Commands -/

namespace Command

namespace Invocation

theorem converter_of_prepare {i : Invocation} {env : Variables} {s : Setup} {v w : World}
    (h : (i.prepare env).run.run v = (.ok s, w)) :
    s.converter = Office.converter (i.installation env) Office.programName i.work := by
  unfold prepare at h
  split at h
  · obtain ⟨-, u, -, h⟩ := Run.run_bind_eq_ok h
    obtain ⟨-, u', -, h⟩ := Run.run_bind_eq_ok h
    cases h
    rfl
  · cases h

/-- A command has checked its arguments in the world `v` and begins to make files in `w`. -/
structure Starts (i : Invocation) (v : World) (a : Arguments) (s : Setup) (w : World) : Prop where
  completed : (i.loading v).completed = true
  parsed : Arguments.parse i.arguments = .ok a
  help : a.help = false
  checked : a.check v = []
  prepared : (i.prepare (i.loading v).env).run.run v = (.ok s, w)

variable {i : Invocation} {v w w' : World} {a : Arguments} {s : Setup} {f : Failure}

theorem Starts.run_eq_error (h : i.Starts v a s w)
    (hrun : (Upload.run s a).run.run w = (.error f, w')) :
    (i.run (i.loading v).env).run.run v = (.error f, w') := by
  have hupload : (i.upload (i.loading v).env a).run.run v = (.error f, w') := by
    unfold upload
    rw [Run.run_get, h.checked]
    dsimp only
    rw [Run.run_bind_of_ok h.prepared, Run.run_bind, hrun]
  unfold run
  rw [h.parsed]
  dsimp only
  rw [if_neg (by rw [h.help]; decide)]
  exact hupload

end Invocation

/-- A command that fails to make its files exits with 1 and says why, if there is a text for
    that, and prints nothing but what was said about the variables that it read. -/
theorem report_of_starts {i : Invocation} {v w w' : World} {a : Arguments} {s : Setup} {f : Failure}
    {text : String} (h : i.Starts v a s w) (hrun : (Upload.run s a).run.run w = (.error f, w'))
    (ht : f.Tells text) :
    report i v = ⟨1, lines (i.loading v).lines,
      some (lines (w'.console ++ ["Error: " ++ text])), w'⟩ := by
  unfold report
  rw [if_pos h.completed, h.run_eq_error hrun]
  dsimp only
  rw [ht.described_eq]
  rfl

/-- A loader that looks for a file of variables in the working directory, where there is none,
    and reports on every step. -/
def reportMissing : EnvLoader := fun env _ w =>
  let file := Path.join w.root ".env"
  { env
    lines := [
      "[dotenv@16.6.1][DEBUG] No encoding is specified. UTF-8 is used by default",
      "[dotenv@16.6.1][DEBUG] Failed to load " ++ file ++
        " ENOENT: no such file or directory, open '" ++ file ++ "'",
      "[dotenv@16.6.1] injecting env (0) from .env"] }

/-- A command for a description, whose loader is told to report. -/
def Invocation.verbose : Invocation where
  arguments := ["-d", "d.txt"]
  env := [("DOTENV_CONFIG_DEBUG", "true")]
  load := reportMissing
  work := "/tmp"
  times _ := "T"
  runId := "r"

/-- A workspace in which a tag of the description is not closed. -/
def unclosed : World :=
  .ofTree "/w" ⟨[(["config.json"], .file "\x7b\"aryion\":\"u\"\x7d"), (["d.txt"], .file "[b]")]⟩

theorem exists_starts_unclosed : ∃ a s w f w', Invocation.verbose.Starts unclosed a s w ∧
    s.registry = .builtin ∧ Path.IsClear (Upload.outDir a w) ∧
      (Upload.run s a).run.run w = (.error f, w') ∧
        f.diagnostic?.bind Diagnostic.described? = some "Unclosed tag [b] (line 1, col 1)" := by
  let i : Invocation := .verbose
  let config : AppConfig := ⟨"development", .info, "output/logs", false, "gallery-upload"⟩
  let s : Setup := i.setup i.env config
  let start : LogEvent := ⟨.info, "Upload run starting",
    .ofJson [("runId", .string i.runId), ("env", .string "development")]⟩
  let w : World := s.record start unclosed
  have hconfig : AppConfig.load Invocation.verbose.env = .ok config := by rfl
  have hprepared : (i.prepare i.env).run.run unclosed = (.ok s, w) := by
    unfold Invocation.prepare
    rw [hconfig]
    rfl
  have hstarts : i.Starts unclosed { description := some "d.txt" } s w :=
    ⟨rfl, by rfl, rfl, by decide +kernel, hprepared⟩
  have htext : Failure.text? ((Upload.run s { description := some "d.txt" }).run.run w).1 =
      some "Unclosed tag [b] (line 1, col 1)" := by decide +kernel
  obtain ⟨f, w', hrun, htold⟩ := Failure.exists_run_eq_of_text? htext
  exact ⟨_, s, w, f, w', hstarts, rfl, by decide +kernel, hrun, htold⟩

end Command

namespace Upload

/-- **A failed run of checked arguments tells the user why**, and a command that it belongs to
    exits with 1 and prints this, unless the operating system or the converter has refused
    something. A descent through a description ends with no other error than a malformed source. -/
theorem told_of_run_eq_error :
    (∀ (s : Setup) (a : Arguments) (v w w' : World) (f : Failure), s.registry = .builtin →
      a.check v = [] → Path.IsClear (outDir a w) → (run s a).run.run w = (.error f, w') →
        (∃ text, f.Tells text ∧ ∀ (i : Command.Invocation) (u : World), i.Starts u a s w →
          Command.report i u = ⟨1, Command.lines (i.loading u).lines,
            some (Command.lines (w'.console ++ ["Error: " ++ text])), w'⟩) ∨
        ∃ e, f = .system e ∧ (e.isSystem = true ∨ s.converter.Throws (.system e)) ∧
          ∀ (i : Command.Invocation) (u : World), i.Starts u a s w →
            Path.IsClear (Command.Invocation.temporary (i.loading u).env) → e.isSystem = true) ∧
    ∀ source failure, Descent.ofTokens .builtin (Token.ofSource source) = .error failure →
      ∃ e, failure = .fault e ∧ Document.parse .builtin source = .error e := by
  constructor
  · intro s a v w w' f hs ha hdir h
    obtain (⟨text, htext⟩ | ⟨e, rfl, he⟩) | ⟨e, rfl, he⟩ := run_isExpected hs ha hdir h
    · exact .inl ⟨text, htext, fun i u hi => Command.report_of_starts hi h htext⟩
    · exact .inr ⟨e, rfl, .inl he, fun _ _ _ _ => he⟩
    · refine .inr ⟨e, rfl, .inr he, fun i u hi htemporary => ?_⟩
      rw [Command.Invocation.converter_of_prepare hi.prepared] at he
      exact Office.isSystem_of_throws (i := i.installation (i.loading u).env) htemporary he
  · intro source failure h
    have hdescent : Descent.ofTokens .builtin (Token.ofSource source) =
        Descent.lift (Document.parse .builtin source) :=
      Descent.ofTokens_eq (Token.isChain_place .start _)
    rw [hdescent] at h
    cases hparse : Document.parse .builtin source with
    | ok ns =>
      rw [hparse] at h
      cases h
    | error e =>
      rw [hparse] at h
      cases h
      exact ⟨e, rfl, rfl⟩

theorem told_of_run_eq_error_unclosed : ∃ w', Command.report .verbose Command.unclosed =
    ⟨1, Command.lines (Command.Invocation.verbose.loading Command.unclosed).lines,
      some (Command.lines (w'.console ++ ["Error: Unclosed tag [b] (line 1, col 1)"])), w'⟩ := by
  obtain ⟨a, s, w, f, w', hstarts, hs, hdir, hrun, htext⟩ := Command.exists_starts_unclosed
  obtain ⟨text, htells, hreport⟩ | ⟨e, rfl, -⟩ :=
    told_of_run_eq_error.1 s a Command.unclosed w w' f hs hstarts.checked hdir hrun
  · rw [htells.described_eq] at htext
    cases htext
    exact ⟨w', hreport _ _ hstarts⟩
  · cases htext

/-- An output directory with a null character in its path passes all checks, and is refused
    without a text and by no operating system; so may be whatever a converter is asked for. And
    a command may print what is said about its variables. -/
theorem not_told_of_null_character :
    (¬ ∀ (s : Setup) (a : Arguments) (v w w' : World) (f : Failure), s.registry = .builtin →
      a.check v = [] → (∀ e, ¬ s.converter.Throws e) → (run s a).run.run w = (.error f, w') →
        f.IsTold) ∧
    (¬ ∀ (s : Setup) (a : Arguments) (v w w' : World) (f : Failure), s.registry = .builtin →
      a.check v = [] → Path.IsClear (outDir a w) → (run s a).run.run w = (.error f, w') →
        f.IsTold) ∧
    ¬ ∀ (i : Command.Invocation) (u w w' : World) (a : Arguments) (s : Setup) (f : Failure),
      i.Starts u a s w → (run s a).run.run w = (.error f, w') → (∃ text, f.Tells text) →
        (Command.report i u).stdout = "" := by
  refine ⟨fun h => ?_, fun h => ?_, ?_⟩
  · let a : Arguments := { files := ["a"], outputDir := "\x00" }
    let w := World.ofTree "/w" ⟨[(["a"], .file "1")]⟩
    have hrun := Failure.run_eq_of_system? (x := run .silent a) (w := w)
      (e := .nullCharacter "path" "/w/\x00") (by decide +kernel)
    have hnever : ∀ e, ¬ Setup.silent.converter.Throws e := by
      rintro e (⟨_, _, h⟩ | ⟨_, _, _, h⟩) <;> cases h
    have htold := h .silent a w w _ _ rfl (by decide +kernel) hnever hrun
    exact Failure.not_isTold_nullCharacter _ _ htold
  · let refusal (path : String) : ConvertError := .system (.nullCharacter "path" path)
    let refusing : Setup := { Setup.silent with
      converter := ⟨fun _ path => .error (refusal path), fun _ _ _ => .ok ""⟩ }
    let a : Arguments := { description := some "d.rtf" }
    let w := World.ofTree "/w"
      ⟨[(["config.json"], .file "\x7b\"aryion\":\"u\"\x7d"), (["d.rtf"], .file "")]⟩
    have hrun := Failure.run_eq_of_system? (x := run refusing a) (w := w)
      (e := .nullCharacter "path" "d.rtf") (by decide +kernel)
    have htold := h refusing a w w _ _ rfl (by decide +kernel) (by decide +kernel) hrun
    exact Failure.not_isTold_nullCharacter _ _ htold
  · intro h
    obtain ⟨a, s, w, f, w', hstarts, hs, hdir, hrun, htext⟩ := Command.exists_starts_unclosed
    have htells : ∃ text, f.Tells text := by
      obtain (htells | ⟨e, rfl, -⟩) | ⟨e, rfl, -⟩ := run_isExpected hs hstarts.checked hdir hrun
      · exact htells
      · cases htext
      · cases htext
    have hstdout := h .verbose Command.unclosed w w' a s f hstarts hrun htells
    obtain ⟨text, htells⟩ := htells
    rw [Command.report_of_starts hstarts hrun htells] at hstdout
    have hlines :
        Command.lines (Command.Invocation.verbose.loading Command.unclosed).lines ≠ "" := by
      decide +kernel
    exact hlines hstdout

end Upload

end Crosspost
