/-
  Messages of a run.

  A run takes no text from outside into a message but keys of the configuration that name no site,
  and the path of a document without text.

  * `Setup.Logs s Q w v`: from one world to another, events with `Q` have been logged;
  * `Upload.Quotes s a w e text`: the message of an event tells of such a key or path;
    `Upload.Says s a w e`: the message of an event does so, or is in one line;
  * `Upload.logs_run`: **a run logs nothing else**;
  * `Upload.feeds_of_session_and_run`: **a log has one line for each entry but for the line feeds of
    messages**, which a run takes over from keys and paths, and from nothing else.
-/
import Crosspost.Proofs.Log.Feeds
import Crosspost.Proofs.Upload.Opening

namespace Crosspost

open Text (feeds)

/-! ## Events logged -/

/-- An event is told in one line. -/
structure LogEvent.IsLine (e : LogEvent) : Prop where
  message : feeds e.message = 0
  context : LogContext.IsLine e.context
  writable : LogContext.isWritable e.context = true

theorem LogEvent.IsLine.event (level : LogLevel) {message : String}
    {fields : List (CodePoints × Json)} (hmessage : feeds message = 0)
    (hfields : LogContext.IsLine (.ofJson fields)) : IsLine ⟨level, message, .ofJson fields⟩ :=
  ⟨hmessage, hfields, LogContext.isWritable_ofJson fields⟩

namespace Setup

open Session (Told at_start told_log)

variable {s : Setup} {Q : LogEvent → Prop} {u v w : World} {e : LogEvent}

/-- An event of a run, with a stamp of its clock and the values of its logger. -/
def event (s : Setup) (n : Nat) (e : LogEvent) : LoggedEvent :=
  ⟨[s.logger.bindings], s.clock n, e⟩

/-- From one world to another, some events have been logged, all with `Q`, and none was
    refused. -/
def Logs (s : Setup) (Q : LogEvent → Prop) (w v : World) : Prop :=
  ∃ cs lines, (∀ c ∈ cs, ∃ n e, c = s.event n e ∧ Q e) ∧
    Told s.logger.level cs lines (cs.map fun _ => .ok ()) ∧ v.entries = w.entries ++ lines

namespace Logs

theorem refl (s : Setup) (Q : LogEvent → Prop) (w : World) : s.Logs Q w w :=
  ⟨[], [], by simp, .nil, by simp⟩

/-- What leaves the log alone does not count. -/
theorem congr (h : s.Logs Q w v) (hentries : u.entries = v.entries) : s.Logs Q w u := by
  obtain ⟨cs, lines, hQ, htold, hlines⟩ := h
  exact ⟨cs, lines, hQ, htold, hentries.trans hlines⟩

theorem record (h : s.Logs Q w v) (he : Q e) (hwritable : LogContext.isWritable e.context = true) :
    s.Logs Q w (s.record e v) := by
  obtain ⟨cs, lines, hQ, htold, hlines⟩ := h
  obtain ⟨more, outcome, hmore, hlog⟩ :=
    told_log (at_start s.logger) (s.clock v.entries.length) e
  obtain ⟨houtcome, hreceives⟩ := hlog v
  rw [Logger.log_eq_ok s.writable hwritable] at houtcome
  have htold := htold.append (hmore .nil)
  rw [← houtcome, List.append_nil] at htold
  refine ⟨cs ++ [s.event v.entries.length e], lines ++ more, ?_, ?_, ?_⟩
  · exact List.forall_mem_append.2 ⟨hQ, List.forall_mem_singleton.2 ⟨_, e, rfl, he⟩⟩
  · rwa [List.map_append]
  · rw [Setup.record, hreceives.log, hlines, List.append_assoc]

theorem recordAll {events : List LogEvent} (h : s.Logs Q w v) (he : ∀ e ∈ events, Q e)
    (hwritable : ∀ e ∈ events, LogContext.isWritable e.context = true) :
    s.Logs Q w (s.recordAll events v) := by
  unfold Setup.recordAll
  induction events generalizing v with
  | nil => exact h
  | cons e events ih =>
    rw [List.forall_mem_cons] at he hwritable
    exact ih (h.record he.1 hwritable.1) he.2 hwritable.2

theorem recordLines {events : List LogEvent} (hQ : ∀ e : LogEvent, e.IsLine → Q e)
    (hevents : ∀ e ∈ events, e.IsLine) (h : s.Logs Q w v) : s.Logs Q w (s.recordAll events v) :=
  h.recordAll (fun e he => hQ e (hevents e he)) fun e he => (hevents e he).writable

end Logs

end Setup

/-! ## Worlds with the same log -/

namespace World

theorem entries_makeDirs (w : World) (path : String) : (w.makeDirs path).2.entries = w.entries := by
  unfold makeDirs
  split <;> rfl

theorem entries_copy (w : World) (source target : String) :
    (w.copy source target).2.entries = w.entries := by
  unfold copy
  split <;> rfl

end World

namespace OutputDir

variable {path : String} {keep : Bool} {w u : World}

theorem entries_prepare (path : String) (keep : Bool) (w : World) :
    (prepare path keep w).2.entries = w.entries := by
  unfold prepare
  split
  · exact w.entries_makeDirs path
  · rfl
  · exact World.entries_makeDirs _ path

theorem entries_conclude : (conclude path keep w u).entries = u.entries := by
  unfold conclude
  cases toMove? path keep w <;> rfl

theorem entries_undo : (undo path keep w u).entries = u.entries := by
  unfold undo
  cases toMove? path keep w <;> rfl

end OutputDir

/-! ## Events of descriptions -/

namespace Generated

variable {R : Registry} {usernames : Usernames} {flags : List String} {source : String}
  {g : Generated} {e : LogEvent}

theorem isLine_gapEvent (gap : Gap) : (gapEvent gap).IsLine := by
  have hnumber (n : Int) : (Json.int n).IsLine := Json.isLine_number (Text.feeds_toString_int n)
  have hmessage : feeds (gapEvent gap).message = 0 := by
    simp only [gapEvent]
    cases gap.kind <;> decide
  exact ⟨hmessage, .cons (Json.isLine_string _) (.cons (hnumber _) (.cons (hnumber _) .nil)),
    LogContext.isWritable_ofJson _⟩

theorem isLine_doneEvent (site : Site) (text : String) : (doneEvent site text).IsLine :=
  .event _ (by decide) (.cons (Json.isLine_string _)
    (.cons (Json.isLine_number (Text.feeds_toString _)) .nil))

theorem isLine_report {sites : List Site} {fs : List Fragment} :
    ∀ e ∈ (List.zipWith report sites fs).flatten, e.IsLine := by
  intro e he
  obtain ⟨events, hevents, he⟩ := List.mem_flatten.1 he
  obtain ⟨i, hi, rfl⟩ := List.mem_iff_getElem.1 hevents
  rw [List.getElem_zipWith, report, List.mem_append, List.mem_map, List.mem_singleton] at he
  obtain ⟨gap, -, rfl⟩ | rfl := he
  · exact isLine_gapEvent gap
  · exact isLine_doneEvent _ _

theorem isLine_of_ofSource (h : ofSource R usernames flags source = .ok g) :
    ∀ e ∈ g.events, e.IsLine := by
  simp only [ofSource] at h
  split_ifs at h
  · cases h
    simp
  · split at h
    · cases h
    · obtain ⟨fs, -, rfl⟩ := ofNodes_eq_ok_iff.1 h
      exact isLine_report

/-- So are the events of the sites before one that cannot be rendered. -/
theorem isLine_of_ofSource_eq_error {error : GenerateError}
    (h : ofSource R usernames flags source = .error error) : ∀ e ∈ error.events, e.IsLine := by
  simp only [ofSource] at h
  split_ifs at h
  split at h
  · cases h
    simp [GenerateError.events]
  · obtain ⟨before, s, after, fs, e', -, -, -, rfl⟩ := exists_of_ofNodes_eq_error h
    exact isLine_report

end Generated

/-! ## Steps -/

namespace Setup

open Run

variable {s : Setup} {Q : LogEvent → Prop} {w : World}

theorem obeys_log {level : LogLevel} {message : String} {fields : List (CodePoints × Json)}
    (he : Q ⟨level, message, .ofJson fields⟩) :
    Obeys (s.Logs Q w) (fun _ => True) (s.log level message fields) :=
  .modify fun _ hv => hv.record he (LogContext.isWritable_ofJson fields)

theorem obeys_ask (call : ConverterCall) (answer : Except ConvertError String) :
    Obeys (s.Logs Q w) (fun _ => True) (ask call answer) := by
  refine .bind (.modify fun _ hv => hv.congr rfl) fun _ => ?_
  cases answer with
  | ok text => exact .pure _
  | error e => exact .throw trivial

theorem obeys_write (path content : String) :
    Obeys (s.Logs Q w) (fun _ => True) (write path content) := by
  refine .attempt (fun v v' hv hwrite => hv.congr ?_) fun _ _ _ => trivial
  rw [(World.write_eq_ok hwrite).2]

theorem obeys_readDocument (path : String) :
    Obeys (s.Logs Q w) (fun _ => True) (s.readDocument path) := by
  unfold readDocument
  split_ifs
  · refine .get fun v => ?_
    split
    · exact .pure _
    · exact .throw trivial
  · exact .get fun v => obeys_ask _ _

/-- What follows the warning about an empty document, which may also be an error. -/
theorem obeys_unlessEmpty {α : Type} {empty strict : Prop} [Decidable empty] [Decidable strict]
    {e : Failure} {message : String} {x : Run Failure α} (he : Q ⟨.warn, message, []⟩)
    (hx : Obeys (s.Logs Q w) (fun _ => True) x) :
    Obeys (s.Logs Q w) (fun _ => True) (if empty then
      if strict then do
        throw e
        s.log .warn message
        x
      else do
        s.log .warn message
        x
    else x) :=
  .ite (.ite (.throw_bind trivial) (.bind (obeys_log he) fun _ => hx)) hx

theorem obeys_copyFiles (outDir : String) (files : List String) :
    Obeys (s.Logs Q w) (fun _ => True) (copyFiles outDir files) := by
  refine .mapM fun file _ v hv => ⟨?_, fun _ _ => trivial⟩
  simp only [copyFile]
  rw [run_get]
  have hentries := v.entries_copy file (Path.join outDir (Path.basename file))
  cases hcopy : v.copy file (Path.join outDir (Path.basename file)) with
  | mk result v' =>
    rw [hcopy] at hentries
    cases result <;> exact hv.congr hentries

variable (hQ : ∀ e : LogEvent, e.IsLine → Q e)

include hQ

theorem obeys_writeFormat (outDir stem : String) (lines : List String) (format : StoryFormat) :
    Obeys (s.Logs Q w) (fun _ => True) (s.writeFormat outDir stem lines format) := by
  have hask : Obeys (s.Logs Q w) (fun _ => True) (s.storyText lines format) := by
    unfold storyText
    refine .ite (.pure _) ?_
    cases format with
    | txt | md => exact .pure _
    | rtf => exact .get fun w => obeys_ask _ _
  simp only [writeFormat]
  have hpath (path : String) : LogContext.IsLine (.ofJson [("path", .string path)]) :=
    .cons (Json.isLine_string _) .nil
  refine .ite (.bind (obeys_log (hQ _ (.event _ (by decide) (hpath _)))) fun _ => .pure _)
    (.bind hask fun text => .bind (obeys_write _ text) fun _ => .bind (obeys_log ?_) fun _ =>
      .pure _)
  exact hQ _ (.event _ (by decide) (.cons (Json.isLine_string _) (hpath _)))

theorem obeys_writeStory {path : String} (usernames : Usernames) (outDir : String)
    (ignoreEmpty : Bool)
    (he : Q ⟨.warn, "Ignoring error (" ++ (StoryError.emptyStory path).message ++ ")", []⟩) :
    Obeys (s.Logs Q w) (fun _ => True)
      (s.writeStory usernames path outDir ignoreEmpty) := by
  simp only [writeStory]
  refine .ite (.throw_bind trivial) (.bind (obeys_readDocument path) fun text => ?_)
  refine obeys_unlessEmpty he (.bind (.mapM fun format _ => ?_) fun _ => .pure _)
  exact obeys_writeFormat hQ _ _ _ _

theorem obeys_writeDescriptions {path : String} (usernames : Usernames) (flags : List String)
    (outDir : String) (ignoreEmpty : Bool)
    (he : Q ⟨.warn, "Ignoring error (" ++ (EmptySource.mk path).message ++ ")", []⟩) :
    Obeys (s.Logs Q w) (fun _ => True)
      (s.writeDescriptions usernames flags path outDir ignoreEmpty) := by
  simp only [writeDescriptions]
  refine .bind (obeys_readDocument path) fun source => obeys_unlessEmpty he ?_
  cases hg : Generated.ofSource s.registry usernames flags source with
  | error error =>
    have hevents := Generated.isLine_of_ofSource_eq_error hg
    exact .bind (.modify fun v hv => hv.recordLines hQ hevents) fun _ => .throw trivial
  | ok generated =>
    have hevents := Generated.isLine_of_ofSource hg
    have hsites : LogContext.IsLine
        (.ofJson [("sites", .array (generated.descriptions.map fun d => Json.text d.site))]) := by
      refine .cons (Json.isLine_array_iff.2 ?_) .nil
      exact List.forall_mem_map.2 fun d _ => Json.isLine_string _
    refine .bind (.modify fun v hv => hv.recordLines hQ hevents) fun _ => .bind (.mapM fun d _ => ?_)
      fun _ => .bind (obeys_log (hQ _ (.event _ (by decide) hsites))) fun _ => .pure _
    exact .bind (obeys_write _ d.text) fun _ => .pure _

end Setup

/-! ## Runs -/

namespace Upload

open Run

variable {s : Setup} {a : Arguments} {w : World}

/-- The message of an event takes a text from outside: a key of the configuration that names no
    site, or the path of a document without text. -/
inductive Quotes (s : Setup) (a : Arguments) (w : World) : LogEvent → String → Prop
  | key {loaded : LoadedUsernames} {key : String} :
      Setup.readUsernames s.registry a.config w = .ok loaded → key ∈ loaded.ignoredKeys →
      Quotes s a w ⟨.warn, "Ignoring unknown configuration key \"" ++ key ++ "\"", []⟩ key
  | story {path : String} : a.storyPath? = some path → Quotes s a w
      ⟨.warn, "Ignoring error (" ++ (StoryError.emptyStory path).message ++ ")", []⟩ path
  | description {path : String} : a.descriptionPath? = some path → Quotes s a w
      ⟨.warn, "Ignoring error (" ++ (EmptySource.mk path).message ++ ")", []⟩ path

/-- An event is told in one line, or its message takes a text from outside. -/
def Says (s : Setup) (a : Arguments) (w : World) (e : LogEvent) : Prop :=
  e.IsLine ∨ ∃ text, Quotes s a w e text

theorem feeds_between {before text after : String} (hbefore : feeds before = 0)
    (hafter : feeds after = 0) : feeds (before ++ text ++ after) = feeds text := by
  rw [Text.feeds_append, Text.feeds_append, hbefore, hafter, Nat.zero_add, Nat.add_zero]

/-- The line feeds of a text from outside are those of the message. -/
theorem Quotes.feeds_eq {e : LogEvent} {text : String} (h : Quotes s a w e text) :
    feeds e.message = feeds text := by
  have hpath {lead : String} (hlead : feeds lead = 0) : feeds (lead ++ text) = feeds text := by
    rw [Text.feeds_append, hlead, Nat.zero_add]
  cases h with
  | key => exact feeds_between (by decide) (by decide)
  | story => exact (feeds_between (by decide) (by decide)).trans (hpath (by decide))
  | description => exact (feeds_between (by decide) (by decide)).trans (hpath (by decide))

theorem Quotes.context_eq {e : LogEvent} {text : String} (h : Quotes s a w e text) :
    e.context = [] := by
  cases h <;> rfl

theorem obeys_use {Q : LogEvent → Prop} {α : Type} {body : Run Failure α}
    (hbody : Obeys (s.Logs Q w) (fun _ => True) body) (path : String) (keep : Bool) :
    Obeys (s.Logs Q w) (fun _ => True) (OutputDir.use path keep body) := by
  refine fun v hv => ⟨?_, fun _ _ => trivial⟩
  have hprepared := hv.congr (OutputDir.entries_prepare path keep v)
  rw [OutputDir.run_use_eq]
  cases hprepare : OutputDir.prepare path keep v with
  | mk ready u =>
    rw [hprepare] at hprepared
    cases ready with
    | error e => exact hprepared
    | ok _ =>
      have hfilled := (hbody u hprepared).1
      dsimp only
      cases hrun : body.run.run u with
      | mk result t =>
        rw [hrun] at hfilled
        cases result with
        | ok x => exact hfilled.congr OutputDir.entries_conclude
        | error e => exact hfilled.congr OutputDir.entries_undo

theorem obeys_loadFlags {Q : LogEvent → Prop} (hQ : ∀ e : LogEvent, e.IsLine → Q e) :
    Obeys (s.Logs Q w) (fun _ => True) (loadFlags s a) := by
  unfold loadFlags
  cases Flags.ofOptions a.defineOptions with
  | error e => exact .throw trivial
  | ok flags =>
    have hduplicates : LogContext.IsLine
        (.ofJson [("duplicates", .array (flags.duplicates.map Json.text))]) := by
      refine .cons (Json.isLine_array_iff.2 ?_) .nil
      exact List.forall_mem_map.2 fun flag _ => Json.isLine_string _
    exact .ite (.bind (Setup.obeys_log (hQ _ (.event _ (by decide) hduplicates))) fun _ => .pure _)
      (.pure _)

/-- The keys that name no site are told of. -/
theorem logs_loadUsernames (s : Setup) (a : Arguments) (w : World) :
    s.Logs (Says s a w) w ((loadUsernames s a).run.run w).2 := by
  unfold loadUsernames
  split_ifs
  · rw [run_get]
    cases hread : Setup.readUsernames s.registry a.config w with
    | error e => exact .refl _ _ _
    | ok loaded =>
      have hkeys : ∀ key ∈ loaded.ignoredKeys, Says s a w
          ⟨.warn, "Ignoring unknown configuration key \"" ++ key ++ "\"", []⟩ :=
        fun key hkey => .inr ⟨key, .key hread hkey⟩
      exact (Setup.Logs.refl s (Says s a w) w).recordAll (List.forall_mem_map.2 hkeys)
        (List.forall_mem_map.2 fun _ _ => rfl)
  · exact .refl _ _ _

theorem obeys_fill (usernames : Usernames) (flags : List String) (outDir : String) (v : World) :
    Obeys (s.Logs (Says s a w) v) (fun _ => True) (fill s a usernames flags outDir) := by
  have hQ : ∀ e : LogEvent, e.IsLine → Says s a w e := fun e he => .inl he
  have hstory : Obeys (s.Logs (Says s a w) v) (fun _ => True)
      (storyFiles s a usernames outDir) := by
    unfold storyFiles
    cases hpath : a.storyPath? with
    | none => exact .pure _
    | some path => exact Setup.obeys_writeStory hQ usernames outDir _ (.inr ⟨path, .story hpath⟩)
  have hdescriptions : Obeys (s.Logs (Says s a w) v) (fun _ => True)
      (descriptionFiles s a usernames flags outDir) := by
    unfold descriptionFiles
    cases hpath : a.descriptionPath? with
    | none => exact .pure _
    | some path =>
      exact Setup.obeys_writeDescriptions hQ usernames flags outDir _
        (.inr ⟨path, .description hpath⟩)
  rw [fill_eq]
  exact hstory.bind fun _ => hdescriptions.bind fun _ =>
    (Setup.obeys_copyFiles outDir a.files).bind fun _ => .pure _

/-- **A run takes no other texts into its messages.** -/
theorem logs_run (s : Setup) (a : Arguments) (w : World) :
    s.Logs (Says s a w) w ((run s a).run.run w).2 := by
  have hloaded := logs_loadUsernames s a w
  unfold run
  rw [run_bind]
  cases hload : (loadUsernames s a).run.run w with
  | mk result v =>
    rw [hload] at hloaded
    cases result with
    | error e => exact hloaded
    | ok usernames =>
      have hrest : Obeys (s.Logs (Says s a w) w) (fun _ => True) (do
          let flags ← loadFlags s a
          let outDir := Path.resolve (← get).root a.outputDir
          OutputDir.use outDir a.keepOutDir (fill s a usernames flags outDir)) :=
        .bind (obeys_loadFlags fun e he => .inl he) fun flags => .get fun v =>
          obeys_use (obeys_fill usernames flags _ w) _ _
      exact (hrest v hloaded).1

/-- The line of an event of a run has the line feeds of its message. -/
theorem feeds_event (hclock : ∀ n, (s.clock n).IsLine) (hbindings : s.logger.bindings.IsLine)
    {n : Nat} {e : LogEvent} {line : LogLevel × String} (h : Says s a w e)
    (hshows : (s.event n e).Shows line) : feeds line.2 = feeds e.message := by
  have hcontext : LogContext.IsLine e.context := by
    obtain hline | ⟨text, hquotes⟩ := h
    · exact hline.context
    · rw [hquotes.context_eq]
      exact .nil
  refine LogEvent.Shows.feeds_eq hshows (hclock n) ?_
  rw [Setup.event, List.flatten_singleton]
  exact List.forall_mem_append.2 ⟨hbindings, hcontext⟩

open Session in
/-- **A log has one line for each line of the messages that are told**, and so one for each entry
    where no message has a line feed. In a run all events can be told, and a message has the line
    feeds of the key or the path that it tells of, and no others. -/
theorem feeds_of_session_and_run (start : Logger) (calls : List LoggerCall) (s : Setup)
    (a : Arguments) (w : World) :
    (∀ path ∈ start.file, w.appends path = true → AreLines start calls →
      feeds (((Session.start start w).performAll calls).world.content path) =
          feeds (w.content path) +
            ((told start calls).map fun c => feeds c.event.message + 1).sum ∧
        (feeds (((Session.start start w).performAll calls).world.content path) =
            feeds (w.content path) + (told start calls).length ↔
          ∀ c ∈ told start calls, feeds c.event.message = 0)) ∧
    ((∀ n, (s.clock n).IsLine) → s.logger.bindings.IsLine →
      ∃ cs lines, ((run s a).run.run w).2.entries = w.entries ++ lines ∧
        Told s.logger.level cs lines (cs.map fun _ => .ok ()) ∧
        ∀ c ∈ cs, (∃ n, c = s.event n c.event) ∧
          (∀ line, c.Shows line → feeds line.2 = feeds c.event.message) ∧
          (feeds c.event.message = 0 ∨
            ∃ text, Quotes s a w c.event text ∧ feeds c.event.message = feeds text)) := by
  constructor
  · intro path hpath happends hlines
    have hfeeds := feeds_performAll hpath happends hlines
    refine ⟨hfeeds, ?_⟩
    rw [hfeeds, Nat.add_left_cancel_iff]
    exact sum_feeds_eq_length_iff _
  · intro hclock hbindings
    obtain ⟨cs, lines, hcs, htold, hentries⟩ := logs_run s a w
    refine ⟨cs, lines, hentries, htold, fun c hc => ?_⟩
    obtain ⟨n, e, rfl, hsays⟩ := hcs c hc
    refine ⟨⟨n, rfl⟩, fun line => feeds_event hclock hbindings hsays, ?_⟩
    obtain hline | ⟨text, hquotes⟩ := hsays
    · exact .inl hline.message
    · exact .inr ⟨text, hquotes, hquotes.feeds_eq⟩

/-- The world of a run whose configuration has a key of two lines. -/
def brokenKey : World := .ofTree "/w"
  ⟨[(["config.json"], .file "\x7b\"weasyl\":\"u\",\"a\\nb\":\"x\"\x7d"), (["d.txt"], .file "1")]⟩

/-- A message of two lines, a value of two lines and one that cannot be written, and then a run
    with a key of two lines. -/
theorem feeds_of_session_and_run_broken :
    let start : Logger := { file := some "/w/log" }
    let calls : List LoggerCall := [.log 0 ⟨"", none⟩ ⟨.info, "1\n2", []⟩,
      .child 0 (.ofJson [("key", .text "\n")]), .log 1 ⟨"", none⟩ ⟨.warn, "3", []⟩,
      .log 1 ⟨"", none⟩ ⟨.warn, "4", [("n", .unwritable "")]⟩, .log 1 ⟨"", none⟩ ⟨.debug, "5", []⟩]
    let a : Arguments := { description := some "d.txt" }
    feeds (((Session.start start brokenKey).performAll calls).world.content "/w/log") = 3 ∧
      ∃ cs lines, ((run .silent a).run.run brokenKey).2.entries = brokenKey.entries ++ lines ∧
        Session.Told Setup.silent.logger.level cs lines (cs.map fun _ => .ok ()) ∧
        ∀ c ∈ cs, (∃ n, c = Setup.silent.event n c.event) ∧
          (∀ line, c.Shows line → feeds line.2 = feeds c.event.message) ∧
          (feeds c.event.message = 0 ∨ ∃ text, Quotes .silent a brokenKey c.event text ∧
            feeds c.event.message = feeds text) := by
  intro start calls a
  obtain ⟨hsession, hrun⟩ := feeds_of_session_and_run start calls .silent a brokenKey
  have hstamp : Stamp.IsLine ⟨"", none⟩ := ⟨rfl, by simp⟩
  have hcalls : Session.AreLines start calls := by decide +kernel
  obtain ⟨hfeeds, -⟩ := hsession "/w/log" rfl (by decide +kernel) hcalls
  exact ⟨hfeeds.trans (by decide +kernel), hrun (fun _ => hstamp) .nil⟩

open Session in
/-- An entry takes more than one line where its message does, and a key of the configuration makes
    a run log such a message. -/
theorem not_one_line_for_each_entry :
    (¬ ∀ (start : Logger) (calls : List LoggerCall) (w : World) (path : String),
      path ∈ start.file → w.appends path = true → AreLines start calls →
        feeds (((Session.start start w).performAll calls).world.content path) =
          feeds (w.content path) + (told start calls).length) ∧
    ¬ ∀ (s : Setup) (a : Arguments) (w : World), (∀ n, (s.clock n).IsLine) →
      s.logger.bindings.IsLine → ∃ lines, ((run s a).run.run w).2.entries = w.entries ++ lines ∧
        ∀ line ∈ lines, feeds line.2 = 0 := by
  have hstamp : Stamp.IsLine ⟨"", none⟩ := ⟨rfl, by simp⟩
  constructor
  · intro h
    let start : Logger := { file := some "/w/log" }
    let calls : List LoggerCall :=
      [.log 0 ⟨"", none⟩ ⟨.warn, "Ignoring unknown configuration key \"a\nb\"", []⟩]
    have hcalls : AreLines start calls := by decide +kernel
    have hfeeds := h start calls brokenKey "/w/log" rfl (by decide +kernel) hcalls
    exact absurd hfeeds (by decide +kernel)
  · intro h
    obtain ⟨lines, hlines, hfeeds⟩ :=
      h .silent { description := some "d.txt" } brokenKey (fun _ => hstamp) .nil
    have hbroken : (((run .silent { description := some "d.txt" }).run.run brokenKey).2.entries.any
        fun line => feeds line.2 != 0) = true := by decide +kernel
    rw [hlines] at hbroken
    obtain ⟨line, hline, hne⟩ := List.any_eq_true.1 hbroken
    have hzero := hfeeds line ((List.mem_append.1 hline).resolve_left List.not_mem_nil)
    rw [hzero] at hne
    cases hne

end Upload

end Crosspost
