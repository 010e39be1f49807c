/-
  Entries of a log.

  * `LogContext.Writes`: the text of the fields of an event, if they can be written;
    `LogContext.text_eq_ok_iff`: it is made of the fields that are merged from values;
  * `LogEvent.Shows`: the line of an event, with the values of the loggers on a path and
    its own ones, merged;
  * `Logger.entry_eq_ok_iff`: **the entry of an event is its line**, and there is none
    where there is no line;
  * `LogContext.exists_text`: values that can be written whatever their names can be
    written together, and `Logger.exists_entry`: then there is an entry.
-/
import Crosspost.Log.Logger
import Crosspost.Proofs.Json.Merging
import Crosspost.Proofs.Results

namespace Crosspost

/-! ## Values -/

namespace LogValue

/-- The JSON that is written for a value, if it is not left out. -/
def json? : LogValue → Option Json
  | json value => some value
  | _ => none

theorem written_eq_ok_iff {value : LogValue} {written : Option Json} :
    value.written = .ok written ↔
      (∀ error, value ≠ .unwritable error) ∧ written = value.json? := by
  cases value <;> simp [LogValue.written, json?, eq_comm]

theorem ne_unwritable {value : LogValue} (h : value.isWritable = true) (error : String) :
    value ≠ .unwritable error := by
  rintro rfl
  cases h

end LogValue

namespace LogContext

/-- The fields that are not left out. -/
def present (fields : LogContext) : List (CodePoints × Json) :=
  fields.filterMap fun f => f.2.json?.map (f.1, ·)

/-- The text of the fields of an event, if they can be written. -/
inductive Writes (fields : LogContext) : String → Prop
  /-- A function with the name `toJSON` answers for all of them. -/
  | answer {answer : LogValue} : (answerKey, .function answer) ∈ fields →
      (∀ error, answer ≠ .unwritable error) →
      Writes fields ((answer.json?.map Json.render).getD "undefined")
  /-- Those that are not left out are written as an object. -/
  | object : (∀ answer, (answerKey, .function answer) ∉ fields) →
      (∀ f ∈ fields, ∀ error, f.2 ≠ .unwritable error) →
      Writes fields (Json.braces ((present fields).map fun f => (f.1, f.2.render)))

variable {context fields : LogContext} {text : String}

theorem entries_eq_ok_iff {values : List (CodePoints × Json)} :
    entries context = .ok values ↔
      (∀ f ∈ context, ∀ error, f.2 ≠ .unwritable error) ∧ values = present context := by
  induction context generalizing values with
  | nil => simp [entries, present, eq_comm]
  | cons f context ih =>
    rw [entries, bind_eq_ok, List.forall_mem_cons]
    constructor
    · rintro ⟨first, hfirst, h⟩
      obtain ⟨others, hothers, h⟩ := bind_eq_ok.1 h
      obtain ⟨hf, rfl⟩ := LogValue.written_eq_ok_iff.1 hfirst
      obtain ⟨hcontext, rfl⟩ := ih.1 hothers
      cases h
      refine ⟨⟨hf, hcontext⟩, ?_⟩
      cases hjson : f.2.json? <;> simp [present, hjson]
    · rintro ⟨⟨hf, hcontext⟩, rfl⟩
      refine ⟨_, LogValue.written_eq_ok_iff.2 ⟨hf, rfl⟩, bind_eq_ok.2 ⟨_, ih.2 ⟨hcontext, rfl⟩, ?_⟩⟩
      cases hjson : f.2.json? <;> simp [present, hjson]

theorem text_eq_ok_iff : context.text = .ok text ↔ Writes (Fields.ofEntries context) text := by
  have hmem : ∀ value, (Fields.ofEntries context).lookup answerKey = some value ↔
      (answerKey, value) ∈ Fields.ofEntries context := fun _ =>
    lookup_eq_some_iff_mem (Fields.nodup_ofEntries context)
  unfold LogContext.text
  dsimp only
  split
  · next answer hlookup =>
    rw [bind_eq_ok]
    constructor
    · rintro ⟨written, hwritten, h⟩
      obtain ⟨hanswer, rfl⟩ := LogValue.written_eq_ok_iff.1 hwritten
      cases h
      exact .answer ((hmem _).1 hlookup) hanswer
    · rintro (⟨hin, hanswer⟩ | ⟨hnone, -⟩)
      · rw [← hmem, hlookup] at hin
        cases hin
        exact ⟨_, LogValue.written_eq_ok_iff.2 ⟨hanswer, rfl⟩, rfl⟩
      · exact absurd ((hmem _).1 hlookup) (hnone answer)
  · next hnone =>
    have hno : ∀ answer, (answerKey, .function answer) ∉ Fields.ofEntries context :=
      fun answer hin => hnone answer ((hmem _).2 hin)
    rw [bind_eq_ok]
    constructor
    · rintro ⟨values, hvalues, h⟩
      obtain ⟨hfields, rfl⟩ := entries_eq_ok_iff.1 hvalues
      cases h
      exact .object hno hfields
    · rintro (⟨hin, -⟩ | ⟨-, hfields⟩)
      · exact absurd hin (hno _)
      · exact ⟨_, entries_eq_ok_iff.2 ⟨hfields, rfl⟩, rfl⟩

/-- Values that can be written whatever their names can be written together. -/
theorem exists_text (h : context.isWritable = true) : ∃ text, context.text = .ok text := by
  have hfields : ∀ f ∈ Fields.ofEntries context, f.2.isWritable = true := fun f hf =>
    List.all_eq_true.1 h f ((Fields.merges_ofEntries context).subset hf)
  by_cases hanswer : ∃ answer, (answerKey, .function answer) ∈ Fields.ofEntries context
  · obtain ⟨answer, hin⟩ := hanswer
    have hwritable : answer.isWritable = true := hfields _ hin
    exact ⟨_, text_eq_ok_iff.2 (.answer hin fun _ => LogValue.ne_unwritable hwritable _)⟩
  · exact ⟨_, text_eq_ok_iff.2 (.object (not_exists.1 hanswer) fun f hf =>
      LogValue.ne_unwritable (hfields f hf))⟩

theorem isWritable_ofJson (fields : List (CodePoints × Json)) : (ofJson fields).isWritable = true := by
  simp [isWritable, ofJson, LogValue.isWritable]

end LogContext

/-! ## Lines -/

/-- What the fields of an event add to its line. -/
def LogContext.Adds (fields : LogContext) (added : String) : Prop :=
  if fields.isEmpty then added = "" else ∃ text, fields.Writes text ∧ added = " " ++ text

/-- The level and the text of an event's line in the log, if its values can be written. They are
    merged from those of the loggers on its path and its own ones, and are left out if there
    are none. -/
def LogEvent.Shows (stamp : Stamp) (path : List LogContext) (e : LogEvent)
    (line : LogLevel × String) : Prop :=
  ∃ (fields : LogContext) (added : String),
    Fields.Merges (path.flatten ++ e.context) fields ∧ fields.Adds added ∧
    line = (e.level, "[" ++ stamp.time ++ "] [" ++ e.level.label ++ "] [" ++
      stamp.run.getD "no-run-id" ++ "] " ++ e.message ++ added)

theorem LogEvent.Shows.eq_mk {stamp : Stamp} {path : List LogContext} {e : LogEvent}
    {line : LogLevel × String} (h : e.Shows stamp path line) : line = (e.level, line.2) := by
  obtain ⟨_, _, _, _, rfl⟩ := h
  rfl

/-- The entry of an event depends on its merged values only. -/
theorem LogEvent.entry_congr {context others : LogContext} (stamp : Stamp) (level : LogLevel)
    (message : String) (h : Fields.ofEntries context = Fields.ofEntries others) :
    entry stamp ⟨level, message, context⟩ = entry stamp ⟨level, message, others⟩ := by
  have hempty (c : LogContext) : c.isEmpty = (Fields.ofEntries c).isEmpty :=
    (Fields.merges_ofEntries c).isEmpty_eq.symm
  have htext : context.text = others.text := by rw [LogContext.text, LogContext.text, h]
  simp only [entry, hempty context, hempty others, h, htext]

theorem LogEvent.shows_iff {stamp : Stamp} {path : List LogContext} {e : LogEvent}
    {line : LogLevel × String} : e.Shows stamp path line ↔
      ∃ added, LogContext.Adds (Fields.ofEntries (path.flatten ++ e.context)) added ∧
        line = (e.level, "[" ++ stamp.time ++ "] [" ++ e.level.label ++ "] [" ++
          stamp.run.getD "no-run-id" ++ "] " ++ e.message ++ added) := by
  constructor
  · rintro ⟨fields, added, hmerges, h⟩
    rw [← Fields.ofEntries_eq_iff] at hmerges
    exact ⟨added, hmerges ▸ h⟩
  · rintro ⟨added, h⟩
    exact ⟨_, added, Fields.merges_ofEntries _, h⟩

/-- **The entry of an event is its line.** -/
theorem LogEvent.entry_eq_ok_iff {stamp : Stamp} {e : LogEvent} {text : String} :
    e.entry stamp = .ok text ↔ e.Shows stamp [] (e.level, text) := by
  have hempty := (Fields.merges_ofEntries e.context).isEmpty_eq
  rw [shows_iff, List.flatten_nil, List.nil_append, entry]
  simp only [LogContext.Adds, hempty]
  split_ifs
  · constructor
    · rintro ⟨⟩
      exact ⟨"", rfl, by rw [String.append_empty]⟩
    · rintro ⟨_, rfl, h⟩
      rw [(Prod.mk.inj h).2, String.append_empty]
  · rw [bind_eq_ok]
    constructor
    · rintro ⟨values, hvalues, h⟩
      refine ⟨_, ⟨values, LogContext.text_eq_ok_iff.1 hvalues, rfl⟩, ?_⟩
      rw [← String.append_assoc, ← Except.ok.inj h]
    · rintro ⟨_, ⟨values, hvalues, rfl⟩, h⟩
      refine ⟨values, LogContext.text_eq_ok_iff.2 hvalues, ?_⟩
      rw [(Prod.mk.inj h).2, String.append_assoc]

namespace Logger

/-- The values that a logger adds to those of an event, written with them. -/
theorem entry_eq (l : Logger) (stamp : Stamp) (e : LogEvent) :
    l.entry stamp e = { e with context := l.bindings ++ e.context }.entry stamp := by
  refine LogEvent.entry_congr stamp e.level e.message ?_
  have hcontext : Fields.putAll (Fields.putAll [] l.bindings) e.context =
      Fields.putAll [] (l.bindings ++ e.context) := (Fields.putAll_append _).symm
  rw [hcontext]
  simpa using Fields.ofEntries_putAll_append (l.bindings ++ e.context) []

/-- **The entry of an event is its line**, with the values of the logger. -/
theorem entry_eq_ok_iff {l : Logger} {stamp : Stamp} {e : LogEvent} {text : String} :
    l.entry stamp e = .ok text ↔ e.Shows stamp [l.bindings] (e.level, text) := by
  rw [entry_eq, LogEvent.entry_eq_ok_iff]
  simp only [LogEvent.Shows, List.flatten_nil, List.flatten_singleton, List.nil_append]

/-- Where all values can be written, there is an entry. -/
theorem exists_entry {l : Logger} {e : LogEvent} (hl : l.bindings.isWritable = true)
    (he : e.context.isWritable = true) (stamp : Stamp) : ∃ text, l.entry stamp e = .ok text := by
  have hcontext : LogContext.isWritable (l.bindings ++ e.context) = true := by
    rw [LogContext.isWritable, List.all_append, Bool.and_eq_true]
    exact ⟨hl, he⟩
  obtain ⟨text, htext⟩ := LogContext.exists_text hcontext
  rw [entry_eq, LogEvent.entry]
  split_ifs
  · exact ⟨_, rfl⟩
  · exact ⟨_, bind_eq_ok.2 ⟨text, htext, rfl⟩⟩

end Logger

end Crosspost
