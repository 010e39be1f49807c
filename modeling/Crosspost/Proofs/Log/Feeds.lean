/-
  Lines of a log file.

  An entry ends with a line feed. Its values are written as JSON, which holds none; its message is
  written as it is.

  * `Text.feeds s`: the number of line feeds in a text;
  * `Json.feeds_render`: **the text of a JSON value holds no line feed**;
  * `LogEvent.Shows.feeds_eq`: an entry has the line feeds of its message, and no others;
  * `Session.feeds_performAll`: **a session adds one line for each line of the messages that are
    told**, so that each entry has a line of its own just where no message has a line feed.
-/
import Mathlib.Algebra.GroupWithZero.Nat
import Crosspost.Proofs.Log.Sessions
import Crosspost.Proofs.Number.Decimals

namespace Crosspost

/-! ## Line feeds -/

namespace Text

/-- The number of line feeds in a text. -/
def feeds (s : String) : Nat := s.toList.count '\n'

variable {s : String}

theorem feeds_eq_zero_iff : feeds s = 0 ↔ '\n' ∉ s.toList := List.count_eq_zero

@[simp] theorem feeds_append (a b : String) : feeds (a ++ b) = feeds a + feeds b := by
  simp [feeds]

/-- Joining texts of one line with a separator in one line makes one line. -/
theorem feeds_intercalate {sep : String} {texts : List String} (hsep : feeds sep = 0)
    (h : ∀ text ∈ texts, feeds text = 0) : feeds (sep.intercalate texts) = 0 := by
  induction texts with
  | nil => rfl
  | cons text texts ih =>
    obtain ⟨htext, htexts⟩ := List.forall_mem_cons.1 h
    cases texts with
    | nil => simpa using htext
    | cons next texts =>
      rw [String.intercalate_cons_cons, feeds_append, feeds_append, htext, hsep, ih htexts]

end Text

open Text (feeds feeds_eq_zero_iff)

/-! ## JSON -/

theorem Chars.digitChar_ne_feed (n : Nat) : Nat.digitChar n ≠ '\n' := by
  obtain hn | hn := Nat.lt_or_ge n 16
  · have hdigits : ∀ k : Fin 16, Nat.digitChar k ≠ '\n' := by decide
    exact hdigits ⟨n, hn⟩
  · obtain ⟨k, rfl⟩ := Nat.exists_eq_add_of_le' hn
    have hstar : Nat.digitChar (k + 16) = '*' := rfl
    rw [hstar]
    decide

theorem Text.feeds_toString (n : Nat) : feeds (toString n) = 0 := by
  rw [feeds_eq_zero_iff, ← ofList_decimal, String.toList_ofList]
  exact fun h => absurd (isDigit_of_mem_decimal h) (by decide)

theorem Text.feeds_toString_int (n : Int) : feeds (toString n) = 0 := by
  cases n with
  | ofNat n => exact Text.feeds_toString n
  | negSucc n =>
    have hneg : toString (Int.negSucc n) = "-" ++ toString (n + 1) := rfl
    rw [hneg, Text.feeds_append, Text.feeds_toString]
    rfl

theorem Text.feeds_binary64 (v : Nat) : feeds (Binary64.text v) = 0 := by
  have hdigits := feeds_eq_zero_iff.1 (Text.feeds_toString (Binary64.shortest v))
  simp only [Binary64.text]
  generalize (toString (Binary64.shortest v)).toList = digits at hdigits ⊢
  have hfraction : '\n' ∉ (Binary64.significant digits).drop 1 := fun h =>
    hdigits (List.mem_reverse.1 ((List.dropWhile_suffix _).subset
      (List.mem_reverse.1 (List.mem_of_mem_drop h))))
  have hlead : '\n' ∉ digits.take 1 := fun h => hdigits (List.mem_of_mem_take h)
  have hpoint (empty : Bool) : '\n' ∉ if empty then [] else ['.'] := by
    cases empty <;> decide
  by_cases hlength : digits.length ≤ 21
  · rwa [if_pos hlength, feeds_eq_zero_iff, String.toList_ofList]
  · rw [if_neg hlength, Text.feeds_append, Text.feeds_append, Text.feeds_toString,
      feeds_eq_zero_iff.2]
    · rfl
    · rw [String.toList_ofList, List.mem_append, List.mem_append, not_or, not_or]
      exact ⟨⟨hlead, hpoint _⟩, hfraction⟩

namespace Json

mutual
/-- The literals of the numbers in a value. -/
def numbers : Json → List String
  | number literal => [literal]
  | array items => itemNumbers items
  | object entries => entriesNumbers entries
  | _ => []

/-- The literals of the numbers in the items of an array. -/
def itemNumbers : List Json → List String
  | [] => []
  | item :: items => item.numbers ++ itemNumbers items

/-- The literals of the numbers in the entries of an object. -/
def entriesNumbers : List (CodePoints × Json) → List String
  | [] => []
  | entry :: entries => entryNumbers entry ++ entriesNumbers entries

/-- The literals of the numbers in an entry. -/
def entryNumbers : CodePoints × Json → List String
  | (_, value) => value.numbers
end

/-- The numbers in a value are written in one line, as all numbers are. -/
def IsLine (v : Json) : Prop := ∀ literal ∈ v.numbers, feeds literal = 0

instance (v : Json) : Decidable v.IsLine :=
  inferInstanceAs (Decidable (∀ literal ∈ v.numbers, feeds literal = 0))

theorem itemNumbers_eq (items : List Json) : itemNumbers items = items.flatMap numbers := by
  induction items with
  | nil => rfl
  | cons item items ih => rw [itemNumbers, ih, List.flatMap_cons]

theorem entriesNumbers_eq (entries : List (CodePoints × Json)) :
    entriesNumbers entries = entries.flatMap (·.2.numbers) := by
  induction entries with
  | nil => rfl
  | cons entry entries ih =>
    rw [entriesNumbers, ih, entryNumbers.eq_def, List.flatMap_cons]

theorem isLine_array_iff {items : List Json} : (array items).IsLine ↔ ∀ v ∈ items, v.IsLine := by
  simp only [IsLine, numbers, itemNumbers_eq, List.forall_mem_flatMap]

theorem isLine_object_iff {entries : List (CodePoints × Json)} :
    (object entries).IsLine ↔ ∀ f ∈ entries, f.2.IsLine := by
  simp only [IsLine, numbers, entriesNumbers_eq, List.forall_mem_flatMap]

theorem isLine_number {literal : String} (h : feeds literal = 0) : (number literal).IsLine := by
  simpa [IsLine, numbers] using h

theorem isLine_string (ps : CodePoints) : (string ps).IsLine := by
  simp [IsLine, numbers]

theorem feed_not_mem_escapePoint (p : CodePoint) : '\n' ∉ escapePoint p := by
  have hpair (n : Nat) : '\n' ∉ Chars.hexPair n := by
    simp [Chars.hexPair, (Chars.digitChar_ne_feed _).symm]
  cases p with
  | char c =>
    rw [escapePoint, escapeChar]
    split_ifs
    all_goals simp_all [eq_comm]
  | surrogate unit => simp [escapePoint, hpair]

theorem feeds_quote (ps : CodePoints) : feeds (quote ps) = 0 := by
  rw [feeds_eq_zero_iff, quote, String.toList_ofList]
  simp [feed_not_mem_escapePoint]

theorem feeds_numberText {literal : String} (h : feeds literal = 0) :
    feeds (numberText literal) = 0 := by
  rw [numberText]
  cases literal.toInt? with
  | none => exact h
  | some n =>
    simp only [Binary64.textOf?]
    cases Binary64.round n.natAbs with
    | none =>
      have hnull : feeds "null" = 0 := by decide
      exact hnull
    | some v =>
      rw [Option.map_some, Option.getD_some]
      split_ifs
      · rw [Text.feeds_append, Text.feeds_binary64]
        rfl
      · exact Text.feeds_binary64 v

theorem feeds_braces {fields : List (CodePoints × String)} (h : ∀ f ∈ fields, feeds f.2 = 0) :
    feeds (braces fields) = 0 := by
  have hfields : feeds (",".intercalate (fields.map fun f => quote f.1 ++ ":" ++ f.2)) = 0 := by
    refine Text.feeds_intercalate rfl fun text ht => ?_
    obtain ⟨f, hf, rfl⟩ := List.mem_map.1 ht
    rw [Text.feeds_append, Text.feeds_append, feeds_quote, h f hf]
    rfl
  rw [braces, Text.feeds_append, Text.feeds_append, hfields]
  rfl

mutual
/-- **A JSON value is written in one line.** -/
theorem feeds_render : (v : Json) → v.IsLine → feeds v.render = 0
  | null, _ => rfl
  | bool true, _ => rfl
  | bool false, _ => rfl
  | number literal, h => by
    rw [render]
    exact feeds_numberText (h literal (by simp [numbers]))
  | string value, _ => feeds_quote value
  | array items, h => by
    have hitems : feeds (",".intercalate (renderItems items)) = 0 :=
      Text.feeds_intercalate rfl (feeds_renderItems items (isLine_array_iff.1 h))
    rw [render, Text.feeds_append, Text.feeds_append, hitems]
    rfl
  | object entries, h => by
    rw [render]
    refine feeds_braces fun f hf => feeds_renderEntries entries (isLine_object_iff.1 h) f ?_
    exact (Fields.merges_ofEntries _).subset hf

theorem feeds_renderItems : (items : List Json) → (∀ v ∈ items, v.IsLine) →
    ∀ text ∈ renderItems items, feeds text = 0
  | [], _ => by simp [renderItems]
  | item :: items, h => by
    rw [List.forall_mem_cons] at h
    rw [renderItems, List.forall_mem_cons]
    exact ⟨feeds_render item h.1, feeds_renderItems items h.2⟩

theorem feeds_renderEntries : (entries : List (CodePoints × Json)) →
    (∀ f ∈ entries, f.2.IsLine) → ∀ f ∈ renderEntries entries, feeds f.2 = 0
  | [], _ => by simp [renderEntries]
  | (key, value) :: entries, h => by
    rw [List.forall_mem_cons] at h
    rw [renderEntries, List.forall_mem_cons]
    exact ⟨feeds_render value h.1, feeds_renderEntries entries h.2⟩
end

end Json

/-! ## Entries -/

/-- The time of an entry and the run it belongs to are told in one line. -/
structure Stamp.IsLine (stamp : Stamp) : Prop where
  time : feeds stamp.time = 0
  run : ∀ run ∈ stamp.run, feeds run = 0

instance (stamp : Stamp) : Decidable stamp.IsLine :=
  decidable_of_iff (feeds stamp.time = 0 ∧ ∀ run ∈ stamp.run, feeds run = 0)
    ⟨fun h => ⟨h.1, h.2⟩, fun h => ⟨h.time, h.run⟩⟩

/-- What is written for a value is written in one line. -/
def LogValue.IsLine : LogValue → Prop
  | json value => value.IsLine
  | function answer => answer.IsLine
  | missing | unwritable _ => True

instance LogValue.decidableIsLine : (value : LogValue) → Decidable value.IsLine
  | json value => inferInstanceAs (Decidable value.IsLine)
  | function answer => decidableIsLine answer
  | missing => .isTrue trivial
  | unwritable _ => .isTrue trivial

theorem LogValue.IsLine.feeds_render {value : LogValue} (h : value.IsLine) :
    ∀ v ∈ value.json?, feeds v.render = 0 := by
  cases value with
  | json value =>
    rintro _ ⟨⟩
    exact Json.feeds_render value h
  | missing | function | unwritable => rintro _ ⟨⟩

/-- The values of an event are written in one line. -/
def LogContext.IsLine (context : LogContext) : Prop := ∀ f ∈ context, f.2.IsLine

instance (context : LogContext) : Decidable context.IsLine :=
  inferInstanceAs (Decidable (∀ f ∈ context, f.2.IsLine))

theorem LogContext.IsLine.nil : LogContext.IsLine [] := by simp [LogContext.IsLine]

theorem LogContext.IsLine.cons {key : CodePoints} {value : Json} {context : LogContext}
    (hvalue : value.IsLine) (h : context.IsLine) :
    LogContext.IsLine ((key, .json value) :: context) :=
  List.forall_mem_cons.2 ⟨hvalue, h⟩

theorem LogContext.Writes.feeds_eq {fields : LogContext} {text : String} (h : fields.Writes text)
    (hfields : fields.IsLine) : feeds text = 0 := by
  cases h with
  | @answer answer hin =>
    have hanswer : answer.IsLine := hfields _ hin
    cases hjson : answer.json? with
    | none => decide
    | some v => exact hanswer.feeds_render v hjson
  | object =>
    refine Json.feeds_braces (List.forall_mem_map.2 fun f hf => ?_)
    obtain ⟨field, hin, hjson⟩ := List.mem_filterMap.1 hf
    obtain ⟨v, hv, rfl⟩ := Option.map_eq_some_iff.1 hjson
    exact (hfields field hin).feeds_render v hv

theorem LogLevel.feeds_label (level : LogLevel) : feeds level.label = 0 := by
  cases level <;> decide

/-- **An entry has the line feeds of its message**, and no others. -/
theorem LogEvent.Shows.feeds_eq {stamp : Stamp} {path : List LogContext} {e : LogEvent}
    {line : LogLevel × String} (h : e.Shows stamp path line) (hstamp : stamp.IsLine)
    (hcontext : LogContext.IsLine (path.flatten ++ e.context)) :
    feeds line.2 = feeds e.message := by
  obtain ⟨fields, added, hmerges, hadded, rfl⟩ := h
  have hrun : feeds (stamp.run.getD "no-run-id") = 0 := by
    cases hrun : stamp.run with
    | none => rfl
    | some run => exact hstamp.run run hrun
  have hvalues : feeds added = 0 := by
    unfold LogContext.Adds at hadded
    split_ifs at hadded
    · rw [hadded]
      rfl
    · obtain ⟨text, hwrites, rfl⟩ := hadded
      rw [Text.feeds_append, hwrites.feeds_eq fun f hf => hcontext f (hmerges.subset hf)]
      rfl
  have hmarks : feeds "[" = 0 ∧ feeds "] [" = 0 ∧ feeds "] " = 0 := by decide
  simp only [Text.feeds_append, hmarks, hstamp.time, LogLevel.feeds_label, hrun, hvalues,
    Nat.zero_add, Nat.add_zero]

/-! ## Sessions -/

/-- Whether an event is told where a level and those above it are passed on: its values must be
    such as can be written. -/
def LoggedEvent.isTold (level : LogLevel) (c : LoggedEvent) : Bool :=
  level.rank ≤ c.event.level.rank &&
    (Logger.entry { bindings := c.path.flatten } c.stamp c.event).isOk

theorem LoggedEvent.isTold_iff {level : LogLevel} {c : LoggedEvent} :
    c.isTold level = true ↔ level.rank ≤ c.event.level.rank ∧ ∃ line, c.Shows line := by
  have hat : Session.At {} c.path { bindings := c.path.flatten } := Logger.Similar.refl _
  rw [isTold, Bool.and_eq_true, decide_eq_true_iff]
  refine and_congr_right fun _ => ⟨fun h => ?_, ?_⟩
  · obtain ⟨text, htext⟩ := exists_of_isOk h
    exact ⟨_, hat.entry_eq_ok_iff.1 htext⟩
  · rintro ⟨line, hline⟩
    have hentry := hat.entry_eq_ok_iff.2 (hline.eq_mk ▸ hline)
    rw [hentry]
    rfl

/-- The stamp and the values of a logged event are written in one line. -/
structure LoggedEvent.IsLine (c : LoggedEvent) : Prop where
  stamp : c.stamp.IsLine
  context : LogContext.IsLine (c.path.flatten ++ c.event.context)

instance (c : LoggedEvent) : Decidable c.IsLine :=
  decidable_of_iff (c.stamp.IsLine ∧ LogContext.IsLine (c.path.flatten ++ c.event.context))
    ⟨fun h => ⟨h.1, h.2⟩, fun h => ⟨h.stamp, h.context⟩⟩

namespace Session

variable {start : Logger} {calls : List LoggerCall} {w : World} {path : String}

/-- The events of a session that are told. -/
def told (start : Logger) (calls : List LoggerCall) : List LoggedEvent :=
  (logged [[start.bindings]] calls).filter (·.isTold start.level)

/-- The stamps and the values of all events of a session are written in one line. -/
def AreLines (start : Logger) (calls : List LoggerCall) : Prop :=
  ∀ c ∈ logged [[start.bindings]] calls, c.IsLine

instance (start : Logger) (calls : List LoggerCall) : Decidable (AreLines start calls) :=
  inferInstanceAs (Decidable (∀ c ∈ logged [[start.bindings]] calls, c.IsLine))

theorem Told.feeds_eq {level : LogLevel} {cs : List LoggedEvent}
    {lines : List (LogLevel × String)} {outcomes : List (Except String Unit)}
    (h : Told level cs lines outcomes) (hcs : ∀ c ∈ cs, c.IsLine) :
    feeds (.join (lines.map fun line => line.2 ++ "\n")) =
      ((cs.filter (·.isTold level)).map fun c => feeds c.event.message + 1).sum := by
  induction h with
  | nil => rfl
  | quiet hlevel _ ih =>
    rw [List.filter_cons_of_neg, ih (List.forall_mem_cons.1 hcs).2]
    rw [LoggedEvent.isTold_iff]
    omega
  | line hlevel hshows _ ih =>
    obtain ⟨hc, hcs⟩ := List.forall_mem_cons.1 hcs
    rw [List.filter_cons_of_pos (LoggedEvent.isTold_iff.2 ⟨hlevel, _, hshows⟩), List.map_cons,
      String.join_cons, Text.feeds_append, Text.feeds_append, hshows.feeds_eq hc.stamp hc.context,
      ih hcs, List.map_cons, List.sum_cons]
    rfl
  | refused _ hnone _ ih =>
    rw [List.filter_cons_of_neg, ih (List.forall_mem_cons.1 hcs).2]
    rw [LoggedEvent.isTold_iff]
    exact fun h => h.2.elim hnone

/-- **A session adds one line to its file for each line of the messages that are told.** -/
theorem feeds_performAll (hpath : path ∈ start.file) (happends : w.appends path = true)
    (hlines : AreLines start calls) :
    feeds (((Session.start start w).performAll calls).world.content path) =
      feeds (w.content path) + ((told start calls).map fun c => feeds c.event.message + 1).sum := by
  obtain ⟨lines, outcomes, htold, -, hreceives⟩ :=
    told_performAll calls (s := .start start w) (.cons (at_start start) .nil)
  rw [hreceives.file path hpath happends, Text.feeds_append, htold.feeds_eq hlines]
  rfl

/-- At least one line is added for each entry. -/
theorem length_le_sum_feeds (cs : List LoggedEvent) :
    cs.length ≤ (cs.map fun c => feeds c.event.message + 1).sum := by
  induction cs with
  | nil => exact Nat.le_refl 0
  | cons c cs ih =>
    rw [List.map_cons, List.sum_cons, List.length_cons]
    omega

/-- One line for each entry is what is added just where no message has a line feed. -/
theorem sum_feeds_eq_length_iff (cs : List LoggedEvent) :
    (cs.map fun c => feeds c.event.message + 1).sum = cs.length ↔
      ∀ c ∈ cs, feeds c.event.message = 0 := by
  induction cs with
  | nil => simp
  | cons c cs ih =>
    have hrest := length_le_sum_feeds cs
    rw [List.forall_mem_cons, List.map_cons, List.sum_cons, List.length_cons]
    constructor
    · intro h
      exact ⟨by omega, ih.1 (by omega)⟩
    · rintro ⟨hfirst, hcs⟩
      have hequal := ih.2 hcs
      omega

end Session

end Crosspost
