/-
  Sessions of loggers.

  A session makes children of loggers and logs events with any logger made so far.

  * `Session.logged`: the events that are logged, each with the values of the loggers
    from the first one to the one it is logged with;
  * `Logger.Receives`: lines that reach the log, the error stream and the file;
  * `Session.Told`: what becomes of each event: a line, an error where its values cannot be
    written, or nothing below the level of the logger;
  * `Session.told_of_create`: **all three places receive the lines of the events that are
    told, in order**; a child of a child is a child of merged values, a child without values
    is its parent again, and no call changes what a logger does later.
-/
import Crosspost.Proofs.Log.Entries
import Crosspost.Proofs.Workspace.Appending

namespace Crosspost

namespace Logger

variable {l k start : Logger} {path : List LogContext} {w v u : World}
  {lines more : List (LogLevel × String)} {stamp : Stamp} {e : LogEvent}

/-! ## Values of loggers -/

/-- Two loggers do the same, and their values are merged alike with those of any event. -/
structure Similar (l k : Logger) : Prop where
  same : k = { l with bindings := k.bindings }
  bindings : ∀ more, Fields.ofEntries (k.bindings ++ more) = Fields.ofEntries (l.bindings ++ more)

theorem ofEntries_child (l : Logger) (bindings more : LogContext) :
    Fields.ofEntries ((l.child bindings).bindings ++ more) =
      Fields.ofEntries (l.bindings ++ (bindings ++ more)) := by
  rw [child, ← Fields.putAll_append, Fields.ofEntries_putAll_append, List.append_assoc]

namespace Similar

theorem refl (l : Logger) : l.Similar l := ⟨rfl, fun _ => rfl⟩

theorem child (h : l.Similar k) (bindings : LogContext) :
    (l.child bindings).Similar (k.child bindings) where
  same := by rw [Logger.child, h.same, Logger.child]
  bindings more := by rw [ofEntries_child, ofEntries_child, h.bindings]

theorem entry_eq (h : l.Similar k) (stamp : Stamp) (e : LogEvent) :
    k.entry stamp e = l.entry stamp e := by
  rw [Logger.entry_eq, Logger.entry_eq]
  exact LogEvent.entry_congr stamp e.level e.message (h.bindings e.context)

end Similar

/-! ## Receiving lines -/

/-- Whether a logger has a file that cannot be added to. -/
def fails (l : Logger) (w : World) : Bool := l.file.any fun path => !w.appends path

/-- From one world to another, some lines have been received: in the log, on the error
    stream, if the logger uses it, and in its file, if it has one that can be added to. A
    file that cannot be added to is told of for each of them. -/
structure Receives (l : Logger) (lines : List (LogLevel × String)) (w v : World) : Prop where
  log : v.entries = w.entries ++ lines
  console : v.console = w.console ++ lines.flatMap fun line =>
    (if l.console then [line.2] else []) ++ if l.fails w then [appendFailure] else []
  file : ∀ path ∈ l.file, w.appends path = true →
    v.content path = w.content path ++ .join (lines.map fun line => line.2 ++ "\n")
  kept : (∀ path ∈ l.file, w.appends path = false) → v.tree = w.tree
  appends : ∀ path ∈ l.file, v.appends path = w.appends path

namespace Receives

theorem refl (l : Logger) (w : World) : l.Receives [] w w :=
  ⟨by simp, by simp, by simp, fun _ => rfl, fun _ _ => rfl⟩

/-- Only the places that a logger writes to count. -/
theorem congr (h : k.Receives lines w v) (hconsole : k.console = l.console)
    (hfile : k.file = l.file) : l.Receives lines w v := by
  have hfails : k.fails w = l.fails w := by rw [fails, fails, hfile]
  exact ⟨h.log, hconsole ▸ hfails ▸ h.console, hfile ▸ h.file, hfile ▸ h.kept, hfile ▸ h.appends⟩

theorem fails_eq (h : l.Receives lines w v) : l.fails v = l.fails w := by
  cases hfile : l.file with
  | none => rw [fails, fails, hfile, Option.any_none, Option.any_none]
  | some path => rw [fails, fails, hfile, Option.any_some, Option.any_some, h.appends path hfile]

theorem trans (h : l.Receives lines w v) (h' : l.Receives more v u) :
    l.Receives (lines ++ more) w u where
  log := by rw [h'.log, h.log, List.append_assoc]
  console := by rw [h'.console, h.console, h.fails_eq, List.flatMap_append, List.append_assoc]
  file path hpath happends := by
    rw [h'.file path hpath ((h.appends path hpath).trans happends), h.file path hpath happends,
      List.map_append, String.join_append, String.append_assoc]
  kept hnone := by
    rw [h'.kept fun path hpath => (h.appends path hpath).trans (hnone path hpath), h.kept hnone]
  appends path hpath := (h'.appends path hpath).trans (h.appends path hpath)

end Receives

/-- An entry reaches the file, or is told to fail. -/
theorem store_eq (l : Logger) (entry : String) (w : World) :
    ∃ tree, l.store entry w =
        { w with tree, console := w.console ++ if l.fails w then [appendFailure] else [] } ∧
      (∀ path ∈ l.file, w.appends path = true →
        World.content { w with tree } path = w.content path ++ (entry ++ "\n")) ∧
      ((∀ path ∈ l.file, w.appends path = false) → tree = w.tree) ∧
      ∀ path ∈ l.file, World.appends { w with tree } path = w.appends path := by
  unfold store fails
  cases l.file with
  | none => exact ⟨w.tree, by simp, by simp, by simp, by simp⟩
  | some path =>
    cases happends : w.appends path with
    | false =>
      obtain ⟨error, herror⟩ := World.append_of_not_appends happends (entry ++ "\n")
      exact ⟨w.tree, by simp [herror, happends, print], by simp [happends], by simp, by simp⟩
    | true =>
      obtain ⟨tree, happend, hcontent, hafter⟩ :=
        World.append_of_appends happends (entry ++ "\n")
      exact ⟨tree, by simp [happend, happends], by simp [hcontent], by simp [happends],
        by simp [hafter, happends]⟩

/-- An event below the level of the logger is not passed on. -/
theorem log_of_lt (h : e.level.rank < l.level.rank) : l.log stamp e w = (.ok (), w) := if_pos h

theorem log_of_entry {text : String} (h : l.level.rank ≤ e.level.rank)
    (htext : l.entry stamp e = .ok text) : l.log stamp e w = (.ok (), l.receive e.level text w) := by
  rw [log, if_neg (Nat.not_lt.2 h), htext]

/-- An event whose values cannot be written leaves nothing. -/
theorem log_of_refused {error : String} (h : l.level.rank ≤ e.level.rank)
    (herror : l.entry stamp e = .error error) : l.log stamp e w = (.error error, w) := by
  rw [log, if_neg (Nat.not_lt.2 h), herror]

/-- An event whose values can all be written is not refused. -/
theorem log_eq_ok (hl : l.bindings.isWritable = true) (he : e.context.isWritable = true)
    (stamp : Stamp) (w : World) : (l.log stamp e w).1 = .ok () := by
  obtain ⟨text, htext⟩ := exists_entry hl he stamp
  unfold log
  split_ifs
  · rfl
  · rw [htext]

theorem fails_congr (hhere : v.here = w.here) (htree : v.tree = w.tree) :
    l.fails v = l.fails w := by
  rw [fails, fails]
  congr 1
  funext path
  rw [World.appends_congr hhere htree]

/-- **All receive an entry.** -/
theorem receives_receive (l : Logger) (level : LogLevel) (entry : String) (w : World) :
    l.Receives [(level, entry)] w (l.receive level entry w) := by
  obtain ⟨printed, hprinted, hreceive⟩ : ∃ printed : World,
      printed = { w with console := w.console ++ if l.console then [entry] else [] } ∧
      l.receive level entry w = { l.store entry printed with
        entries := (l.store entry printed).entries ++ [(level, entry)] } := by
    refine ⟨_, rfl, ?_⟩
    rw [receive]
    cases l.console <;> simp [print]
  -- what is printed changes neither the tree nor what can be added to
  have hhere : printed.here = w.here := by rw [hprinted]
  have htree : printed.tree = w.tree := by rw [hprinted]
  have hsame : ∀ path, printed.appends path = w.appends path := fun _ =>
    World.appends_congr hhere htree
  obtain ⟨tree, hstore, hcontent, hkept, happends⟩ := l.store_eq entry printed
  rw [hreceive, hstore, fails_congr hhere htree]
  constructor
  · rw [hprinted]
  · simp [hprinted]
  · intro path hpath hw
    have hread : printed.content path = w.content path := by rw [hprinted]; rfl
    have hline := hcontent path hpath ((hsame path).trans hw)
    rw [hread] at hline
    rw [List.map_singleton, String.join, List.foldl_cons, List.foldl_nil, String.empty_append]
    exact hline
  · intro hnone
    exact (hkept fun path hpath => (hsame path).trans (hnone path hpath)).trans htree
  · intro path hpath
    rw [← hsame, ← happends path hpath]
    exact World.appends_congr rfl rfl

namespace Similar

theorem log_eq (h : l.Similar k) (stamp : Stamp) (e : LogEvent) (w : World) :
    k.log stamp e w = l.log stamp e w := by
  have hstore : k.store = l.store := by
    funext entry w
    rw [store, store, h.same]
  have hreceive : k.receive = l.receive := by
    funext level entry w
    rw [receive, receive, hstore, h.same]
  rw [log, log, h.entry_eq, hreceive, h.same]

end Similar

/-- A logger is made with the options that are meant, if the directory of its file can be. -/
theorem create_eq_ok_iff {o : GivenOptions} : create o w = (.ok l, v) ↔
    ∃ settled, o.settled? = some settled ∧ l = settled.logger ∧
      settled.makeDirectory w = (.ok (), v) := by
  unfold create
  cases o.settled? with
  | none => simp
  | some settled =>
    cases hmade : settled.makeDirectory w with
    | mk made u => cases made <;> simp [Except.map, Except.mapError, hmade, eq_comm]

end Logger

/-! ## Sessions -/

/-- An event that is logged, with the values of the loggers on the path to the one that it
    is logged with. -/
structure LoggedEvent where
  path : List LogContext
  stamp : Stamp
  event : LogEvent

/-- The level and the text of the line of a logged event. -/
def LoggedEvent.Shows (c : LoggedEvent) (line : LogLevel × String) : Prop :=
  c.event.Shows c.stamp c.path line

/-- The number of the logger that a call is made on. -/
def LoggerCall.logger : LoggerCall → Nat
  | child i _ | log i _ _ => i

namespace Session

open Logger

/-- The events that are logged by some calls, which start with loggers at some paths. -/
def logged : List (List LogContext) → List LoggerCall → List LoggedEvent
  | _, [] => []
  | paths, .child i bindings :: calls =>
    match paths[i]? with
    | some path => logged (paths ++ [path ++ [bindings]]) calls
    | none => logged paths calls
  | paths, .log i stamp event :: calls =>
    match paths[i]? with
    | some path => ⟨path, stamp, event⟩ :: logged paths calls
    | none => logged paths calls

/-- What becomes of events that are logged: which lines there are of them, and how the calls
    end. -/
inductive Told (level : LogLevel) :
    List LoggedEvent → List (LogLevel × String) → List (Except String Unit) → Prop
  | nil : Told level [] [] []
  /-- An event below the level is not passed on. -/
  | quiet {c cs lines outcomes} : c.event.level.rank < level.rank → Told level cs lines outcomes →
      Told level (c :: cs) lines (.ok () :: outcomes)
  | line {c cs line lines outcomes} : level.rank ≤ c.event.level.rank → c.Shows line →
      Told level cs lines outcomes → Told level (c :: cs) (line :: lines) (.ok () :: outcomes)
  /-- The call fails where the values cannot be written. -/
  | refused {c cs lines error outcomes} : level.rank ≤ c.event.level.rank →
      (∀ line, ¬ c.Shows line) → Told level cs lines outcomes →
      Told level (c :: cs) lines (.error error :: outcomes)

theorem Told.append {level : LogLevel} {cs ds : List LoggedEvent}
    {lines more : List (LogLevel × String)} {outcomes others : List (Except String Unit)}
    (h : Told level cs lines outcomes) (h' : Told level ds more others) :
    Told level (cs ++ ds) (lines ++ more) (outcomes ++ others) := by
  induction h with
  | nil => exact h'
  | quiet hlevel _ ih => exact .quiet hlevel ih
  | line hlevel hshows _ ih => exact .line hlevel hshows ih
  | refused hlevel hnone _ ih => exact .refused hlevel hnone ih

variable {start : Logger} {paths : List (List LogContext)} {s t : Session}
  {calls more : List LoggerCall} {w v : World}

@[simp] theorem performAll_nil (s : Session) : s.performAll [] = s := rfl

theorem performAll_cons (s : Session) (call : LoggerCall) (calls : List LoggerCall) :
    s.performAll (call :: calls) = (s.perform call).performAll calls := rfl

theorem performAll_append (s : Session) (calls more : List LoggerCall) :
    s.performAll (calls ++ more) = (s.performAll calls).performAll more := List.foldl_append

theorem perform_child {i : Nat} {l : Logger} (h : s.loggers[i]? = some l) (bindings : LogContext) :
    s.perform (.child i bindings) = { s with loggers := s.loggers ++ [l.child bindings] } := by
  simp [perform, h]

theorem perform_log {i : Nat} {l : Logger} (h : s.loggers[i]? = some l) (stamp : Stamp)
    (e : LogEvent) : s.perform (.log i stamp e) = { s with
      world := (l.log stamp e s.world).2
      outcomes := s.outcomes ++ [(l.log stamp e s.world).1] } := by
  simp [perform, h]

/-- A call on no logger does nothing. -/
theorem perform_none {call : LoggerCall} (h : s.loggers[call.logger]? = none) :
    s.perform call = s := by
  cases call <;> simp_all [perform, LoggerCall.logger]

/-- Elements of one number in two lists. -/
theorem forall₂_get {α β : Type} {R : α → β → Prop} {as : List α} {bs : List β}
    (h : List.Forall₂ R as bs) (i : Nat) :
    (as[i]? = none ∧ bs[i]? = none) ∨ ∃ a b, as[i]? = some a ∧ bs[i]? = some b ∧ R a b := by
  by_cases hi : i < as.length
  · have hj : i < bs.length := h.length_eq ▸ hi
    exact .inr ⟨_, _, List.getElem?_eq_getElem hi, List.getElem?_eq_getElem hj, h.get hi hj⟩
  · have hj : ¬ i < bs.length := h.length_eq ▸ hi
    exact .inl ⟨List.getElem?_eq_none (by omega), List.getElem?_eq_none (by omega)⟩

/-- A logger at a path does as one with all values of the path. -/
def At (start : Logger) (path : List LogContext) (l : Logger) : Prop :=
  Logger.Similar { start with bindings := path.flatten } l

theorem at_start (start : Logger) : At start [start.bindings] start := by
  simpa [At] using Logger.Similar.refl start

theorem At.child {path : List LogContext} {l : Logger} (h : At start path l)
    (bindings : LogContext) : At start (path ++ [bindings]) (l.child bindings) where
  same := by rw [Logger.child, h.same]
  bindings entries := by
    rw [ofEntries_child, h.bindings]
    simp

/-- The entries of a logger at a path are lines with the values of the path. -/
theorem At.entry_eq_ok_iff {path : List LogContext} {l : Logger} (h : At start path l)
    {stamp : Stamp} {e : LogEvent} {text : String} :
    l.entry stamp e = .ok text ↔ e.Shows stamp path (e.level, text) := by
  rw [Logger.Similar.entry_eq h, Logger.entry_eq_ok_iff]
  simp only [LogEvent.Shows, List.flatten_singleton]

/-- **What one event adds**, for a logger at a path. -/
theorem told_log {path : List LogContext} {l : Logger} (h : At start path l) (stamp : Stamp)
    (e : LogEvent) : ∃ lines outcome,
      (∀ {cs others outcomes}, Told start.level cs others outcomes →
        Told start.level (⟨path, stamp, e⟩ :: cs) (lines ++ others) (outcome :: outcomes)) ∧
      ∀ w, (l.log stamp e w).1 = outcome ∧ start.Receives lines w (l.log stamp e w).2 := by
  have hlevel : l.level = start.level := by rw [h.same]
  by_cases hrank : e.level.rank < start.level.rank
  · refine ⟨[], .ok (), .quiet hrank, fun w => ?_⟩
    rw [log_of_lt (hlevel ▸ hrank)]
    exact ⟨rfl, .refl start w⟩
  have hpassed : start.level.rank ≤ e.level.rank := Nat.le_of_not_lt hrank
  cases hentry : l.entry stamp e with
  | ok text =>
    refine ⟨[(e.level, text)], .ok (), .line hpassed (h.entry_eq_ok_iff.1 hentry), fun w => ?_⟩
    rw [log_of_entry (hlevel ▸ hpassed) hentry]
    exact ⟨rfl, (receives_receive l e.level text w).congr (by rw [h.same]) (by rw [h.same])⟩
  | error error =>
    have hnone : ∀ line, ¬ e.Shows stamp path line := by
      intro line hshows
      rw [hshows.eq_mk, ← h.entry_eq_ok_iff, hentry] at hshows
      cases hshows
    refine ⟨[], .error error, .refused hpassed hnone, fun w => ?_⟩
    rw [log_of_refused (hlevel ▸ hpassed) hentry]
    exact ⟨rfl, .refl start w⟩

/-- **The lines of the events that are told are received in order.** -/
theorem told_performAll (calls : List LoggerCall)
    (h : List.Forall₂ (At start) paths s.loggers) :
    ∃ lines outcomes, Told start.level (logged paths calls) lines outcomes ∧
      (s.performAll calls).outcomes = s.outcomes ++ outcomes ∧
      start.Receives lines s.world (s.performAll calls).world := by
  induction calls generalizing paths s with
  | nil => exact ⟨[], [], .nil, by simp, .refl _ _⟩
  | cons call calls ih =>
    rw [performAll_cons]
    cases call with
    | child i bindings =>
      rw [logged]
      obtain ⟨hpath, hl⟩ | ⟨path, l, hpath, hl, hat⟩ := forall₂_get h i
      · rw [hpath, perform_none hl]
        exact ih h
      · rw [hpath, perform_child hl]
        exact ih (s := { s with loggers := s.loggers ++ [l.child bindings] })
          (List.rel_append h (.cons (hat.child bindings) .nil))
    | log i stamp e =>
      rw [logged]
      obtain ⟨hpath, hl⟩ | ⟨path, l, hpath, hl, hat⟩ := forall₂_get h i
      · rw [hpath, perform_none hl]
        exact ih h
      · obtain ⟨first, outcome, htold, hfirst⟩ := told_log hat stamp e
        obtain ⟨houtcome, hreceives⟩ := hfirst s.world
        rw [hpath, perform_log hl, houtcome]
        obtain ⟨lines, outcomes, hlines, houtcomes, hreceived⟩ := ih (s := { s with
          world := (l.log stamp e s.world).2, outcomes := s.outcomes ++ [outcome] }) h
        refine ⟨_, _, htold hlines, ?_, hreceives.trans hreceived⟩
        rw [houtcomes, List.append_assoc, List.singleton_append]

/-! ## Loggers that do the same -/

/-- Two sessions cannot be told apart by what is received and how calls end. -/
structure Same (s t : Session) : Prop where
  world : s.world = t.world
  outcomes : s.outcomes = t.outcomes

/-- Sessions that start with similar loggers do the same. -/
theorem same_performAll (hs : Same t s) (h : List.Forall₂ Logger.Similar s.loggers t.loggers) :
    Same (t.performAll calls) (s.performAll calls) := by
  induction calls generalizing s t with
  | nil => exact hs
  | cons call calls ih =>
    rw [performAll_cons, performAll_cons]
    obtain ⟨hl, hk⟩ | ⟨l, k, hl, hk, hlk⟩ := forall₂_get h call.logger
    · rw [perform_none hl, perform_none hk]
      exact ih hs h
    · cases call with
      | child i bindings =>
        rw [perform_child (i := i) hl, perform_child (i := i) hk]
        exact ih ⟨hs.world, hs.outcomes⟩ (List.rel_append h (.cons (hlk.child bindings) .nil))
      | log i stamp e =>
        rw [perform_log (i := i) hl, perform_log (i := i) hk, hlk.log_eq, hs.world, hs.outcomes]
        exact ih ⟨rfl, rfl⟩ h

/-- No session tells two loggers apart, whatever other loggers it starts with. -/
def Alike (l k : Logger) : Prop :=
  ∀ before after calls w outcomes,
    Same (performAll ⟨before ++ l :: after, w, outcomes⟩ calls)
      (performAll ⟨before ++ k :: after, w, outcomes⟩ calls)

theorem Alike.of_similar {l k : Logger} (h : l.Similar k) : Alike k l := fun _ _ _ _ _ =>
  same_performAll ⟨rfl, rfl⟩ (List.rel_append (List.forall₂_same.2 fun m _ => .refl m)
    (.cons h (List.forall₂_same.2 fun m _ => .refl m)))

/-! ## Numbers of loggers -/

theorem prefix_perform (s : Session) (call : LoggerCall) :
    s.loggers <+: (s.perform call).loggers := by
  cases hl : s.loggers[call.logger]? with
  | none => simp only [perform_none hl, List.prefix_rfl]
  | some l =>
    cases call with
    | child i bindings => simp only [perform_child (i := i) hl, List.prefix_append]
    | log i stamp e => simp only [perform_log (i := i) hl, List.prefix_rfl]

/-- Loggers keep their numbers. -/
theorem prefix_performAll (s : Session) (calls : List LoggerCall) :
    s.loggers <+: (s.performAll calls).loggers := by
  induction calls generalizing s with
  | nil => exact List.prefix_rfl
  | cons call calls ih => exact (s.prefix_perform call).trans (ih _)

/-- All loggers of a session pass on what the first one does, and to the same places. -/
def Stems (start : Logger) (s : Session) : Prop :=
  ∀ l ∈ s.loggers, l = { start with bindings := l.bindings }

theorem Stems.perform (h : Stems start s) (call : LoggerCall) : Stems start (s.perform call) := by
  cases hl : s.loggers[call.logger]? with
  | none =>
    rw [perform_none hl]
    exact h
  | some k =>
    cases call with
    | child i bindings =>
      rw [perform_child (i := i) hl]
      intro l hmem
      obtain hmem | hmem := List.mem_append.1 hmem
      · exact h l hmem
      · rw [List.mem_singleton.1 hmem, Logger.child, h k (List.mem_of_getElem? hl)]
    | log i stamp e =>
      rw [perform_log (i := i) hl]
      exact h

theorem Stems.performAll (h : Stems start s) (calls : List LoggerCall) :
    Stems start (s.performAll calls) := by
  induction calls generalizing s with
  | nil => exact h
  | cons call calls ih => exact ih (h.perform call)

/-- What one event adds depends on no call made after its logger. -/
theorem exists_perform_log (start : Logger) (w : World) (calls : List LoggerCall)
    (i : Fin ((Session.start start w).performAll calls).loggers.length) (stamp : Stamp)
    (e : LogEvent) : ∃ lines outcome, ∀ more,
      let s := (Session.start start w).performAll (calls ++ more)
      start.Receives lines s.world (s.perform (.log i stamp e)).world ∧
        (s.perform (.log i stamp e)).outcomes = s.outcomes ++ [outcome] := by
  let l := ((Session.start start w).performAll calls).loggers[i]
  have hstems : Stems start (Session.start start w) := by simp [Stems, Session.start]
  have hsame : l = { start with bindings := l.bindings } :=
    hstems.performAll calls l (List.getElem_mem i.isLt)
  have hat : At start [l.bindings] l := by
    rw [At, List.flatten_singleton, ← hsame]
    exact .refl l
  obtain ⟨lines, outcome, -, hlog⟩ := told_log hat stamp e
  refine ⟨lines, outcome, fun more => ?_⟩
  intro s
  have hl : s.loggers[i.val]? = some l := by
    obtain ⟨made, hmade⟩ := prefix_performAll ((Session.start start w).performAll calls) more
    rw [← performAll_append] at hmade
    rw [← hmade, List.getElem?_append_left i.isLt]
    exact List.getElem?_eq_getElem i.isLt
  obtain ⟨houtcome, hreceives⟩ := hlog s.world
  rw [perform_log hl, houtcome]
  exact ⟨hreceives, rfl⟩

/-- **A session of loggers.** A logger can be made unless a part of its path has no value or
    the directory of its file cannot be made. The log, the error stream and the file then
    receive the lines of the events that are told, in the order of the calls, and a call fails
    just where its event would have a line but for a value that cannot be written. A child of a
    child is a child of the merged values, a child without values is its parent again, and what
    becomes of an event depends on no other call made after its logger. -/
theorem told_of_create (o : GivenOptions) (w : World) :
    ((∃ start v, Logger.create o w = (.ok start, v)) ↔
      ∃ settled, o.settled? = some settled ∧ (settled.makeDirectory w).1 = .ok ()) ∧
    ∀ start v, Logger.create o w = (.ok start, v) → ∀ calls : List LoggerCall,
      (∃ settled, o.settled? = some settled ∧ start = settled.logger) ∧
      (∃ lines, Told start.level (logged [[]] calls) lines
          ((Session.start start v).performAll calls).outcomes ∧
        start.Receives lines v ((Session.start start v).performAll calls).world) ∧
      (∀ (l : Logger) (a b : LogContext), ∃ both, Fields.Merges (a ++ b) both ∧
        Alike ((l.child a).child b) (l.child both)) ∧
      (∀ l : Logger, Alike (l.child []) l) ∧
      ∀ (i : Fin ((Session.start start v).performAll calls).loggers.length) (stamp : Stamp)
        (e : LogEvent), ∃ lines outcome, ∀ more,
          let s := (Session.start start v).performAll (calls ++ more)
          start.Receives lines s.world (s.perform (.log i stamp e)).world ∧
            (s.perform (.log i stamp e)).outcomes = s.outcomes ++ [outcome] := by
  constructor
  · simp only [Logger.create_eq_ok_iff]
    constructor
    · rintro ⟨_, _, settled, hsettled, -, hmade⟩
      exact ⟨settled, hsettled, congrArg Prod.fst hmade⟩
    · rintro ⟨settled, hsettled, hmade⟩
      exact ⟨_, _, settled, hsettled, rfl, Prod.ext hmade rfl⟩
  · intro start v hcreate calls
    obtain ⟨settled, hsettled, rfl, -⟩ := Logger.create_eq_ok_iff.1 hcreate
    refine ⟨⟨settled, hsettled, rfl⟩, ?_, ?_, ?_, exists_perform_log _ v calls⟩
    · have hat : At settled.logger [] settled.logger := Logger.Similar.refl _
      obtain ⟨lines, outcomes, htold, houtcomes, hreceives⟩ :=
        told_performAll calls (s := .start settled.logger v) (.cons hat .nil)
      rw [Session.start, List.nil_append] at houtcomes
      exact ⟨lines, houtcomes ▸ htold, hreceives⟩
    · intro l a b
      have hboth := Fields.merges_ofEntries (a ++ b)
      refine ⟨_, hboth, .of_similar ⟨rfl, fun entries => ?_⟩⟩
      rw [ofEntries_child, ofEntries_child, ofEntries_child, Fields.ofEntries_part hboth,
        List.append_assoc]
    · intro l
      refine .of_similar ⟨rfl, fun entries => ?_⟩
      rw [ofEntries_child, List.nil_append]

/-- A value of one event cannot be written, so that its call fails. A logger without a level holds
    nothing back. -/
theorem told_of_create_refused :
    let o : GivenOptions := { level := some none }
    let w : World := .ofTree "/w" .empty
    let calls : List LoggerCall := [.child 0 [("b", .missing)], .log 1 ⟨"t", none⟩ ⟨.debug, "x", []⟩,
      .log 0 ⟨"u", none⟩ ⟨.info, "y", [("n", .unwritable "")]⟩, .log 0 ⟨"v", some "r"⟩ ⟨.warn, "z", []⟩]
    ∃ start, Logger.create o w = (.ok start, w) ∧
      (∃ lines, Told start.level (logged [[]] calls) lines
          ((Session.start start w).performAll calls).outcomes ∧
        start.Receives lines w ((Session.start start w).performAll calls).world) ∧
      ((Session.start start w).performAll calls).outcomes = [.ok (), .error "", .ok ()] ∧
      ((Session.start start w).performAll calls).world.entries =
        [(.debug, "[t] [DEBUG] [no-run-id] x \x7b\x7d"), (.warn, "[v] [WARN ] [r] z")] := by
  intro o w calls
  have hcreate : Logger.create o w = (.ok (LoggerOptions.logger { level := .debug }), w) := rfl
  exact ⟨_, hcreate, ((told_of_create o w).2 _ w hcreate calls).2.1, by decide +kernel,
    by decide +kernel⟩

/-- An event that is passed on has no entry where a value of it cannot be written, and where the
    directory for the file cannot be made, there is no logger. -/
theorem not_one_entry_for_each_event :
    (¬ ∀ (o : GivenOptions) (w : World), ∃ start v, Logger.create o w = (.ok start, v)) ∧
    ¬ ∀ (start : Logger) (calls : List LoggerCall) (w : World), ∃ lines,
      List.Forall₂ LoggedEvent.Shows ((logged [[start.bindings]] calls).filter fun c =>
        start.level.rank ≤ c.event.level.rank) lines ∧
      start.Receives lines w ((Session.start start w).performAll calls).world := by
  constructor
  · intro h
    let o : GivenOptions := { logDir := some (some "f/x"), file := some (some true) }
    let w : World := .ofTree "/w" ⟨[(["f"], .file "x")]⟩
    have hfails : (Logger.create o w).1.isOk = false := by decide +kernel
    obtain ⟨start, v, hcreate⟩ := h o w
    rw [hcreate] at hfails
    cases hfails
  · intro h
    let calls : List LoggerCall := [.log 0 ⟨"", none⟩ ⟨.info, "", [("n", .unwritable "")]⟩]
    let w : World := .ofTree "/w" .empty
    obtain ⟨lines, hshows, hreceives⟩ := h {} calls w
    have hnone : ((Session.start {} w).performAll calls).world.entries = [] := by decide +kernel
    have hlines : lines = [] := hreceives.log.symm.trans hnone
    have hlength := hshows.length_eq
    rw [hlines] at hlength
    exact absurd hlength (by decide)

end Session

end Crosspost
