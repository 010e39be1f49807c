/-
  Command lines as they are written.

  * `Setting` is one option with what it is given, `Setting.written` its longest form in one
    argument, and `Arguments.settings` lists what some arguments set;
  * `ValueOption.spellings`: four ways to write an option with a value that is plain;
  * `Line args l`: the arguments are the settings `l`, each written in one of these ways;
  * `Arguments.values_foldl`, `Arguments.isOn_foldl`: what settings that are made one after
    another leave, option by option;
  * `Arguments.finish_of_spells`, `Arguments.finish_of_line`: a setting is read wherever it
    stands behind others, and so is a line of them;
  * `Arguments.parse_written`: **written arguments are read back, whatever their values and their
    order; spellings can be exchanged; and of several values the last one counts.**
-/
import Mathlib.Data.List.Induction
import Mathlib.Data.List.Perm.Basic
import Crosspost.Upload.Arguments

namespace Crosspost

/-! ## Settings -/

/-- An option with what it is given. -/
inductive Setting where
  | value (option : ValueOption) (text : String)
  | switch (option : SwitchOption)
  deriving DecidableEq

/-- Whether an option keeps all its values. -/
def ValueOption.isRepeatable : ValueOption → Bool
  | defineOption | file => true
  | outputDir | config | story | description => false

/-- The options that take a value. -/
def ValueOption.all : List ValueOption :=
  [outputDir, config, defineOption, story, description, file]

/-- The options that take none. -/
def SwitchOption.all : List SwitchOption := [keepOutDir, ignoreEmptyFiles, help]

namespace Setting

/-- A setting in one argument, with the long name of the option. -/
def written : Setting → String
  | value o v => "--" ++ (CommandOption.value o).long ++ "=" ++ v
  | switch o => "--" ++ (CommandOption.switch o).long

/-- The value that a setting gives to an option. -/
def valueFor? (o : ValueOption) : Setting → Option String
  | value p v => if p = o then some v else none
  | switch _ => none

/-- The values that some settings give to an option, in their order. -/
def valuesOf (o : ValueOption) (l : List Setting) : List String := l.filterMap (valueFor? o)

end Setting

/-! ## Spellings -/

/-- A value that is not empty and starts with no dash. -/
def IsPlainValue (v : String) : Prop := v ≠ "" ∧ v.toList.head? ≠ some '-'

/-- The ways to write an option with a plain value: after the letter or the long name of the
    option, in an argument of its own or in the same one. -/
def ValueOption.spellings (o : ValueOption) (v : String) : List (List String) :=
  let letter := String.ofList ['-', (CommandOption.value o).short]
  let name := "--" ++ (CommandOption.value o).long
  [[letter, v], [letter ++ v], [name, v], [name ++ "=" ++ v]]

/-- Some arguments are a way to write a setting. -/
inductive Spells : List String → Setting → Prop
  | written (s : Setting) : Spells [s.written] s
  | plain {o : ValueOption} {v : String} {way : List String} : IsPlainValue v →
      way ∈ o.spellings v → Spells way (.value o v)

/-- Some arguments are settings, each written in some way. -/
inductive Line : List String → List Setting → Prop
  | nil : Line [] []
  | cons {way args : List String} {s : Setting} {l : List Setting} : Spells way s → Line args l →
      Line (way ++ args) (s :: l)

theorem line_written (l : List Setting) : Line (l.map Setting.written) l := by
  induction l with
  | nil => exact .nil
  | cons s l ih => exact .cons (.written s) ih

namespace Arguments

open Setting (valuesOf)

/-! ## What arguments set -/

/-- The values of an option. -/
def values (a : Arguments) : ValueOption → List String
  | .outputDir => [a.outputDir]
  | .config => [a.config]
  | .defineOption => a.defineOptions
  | .story => a.story.toList
  | .description => a.description.toList
  | .file => a.files

/-- Whether a switch is set. -/
def isOn (a : Arguments) : SwitchOption → Bool
  | .keepOutDir => a.keepOutDir
  | .ignoreEmptyFiles => a.ignoreEmptyFiles
  | .help => a.help

/-- The settings that make some arguments. -/
def settings (a : Arguments) : List Setting :=
  (ValueOption.all.flatMap fun o => (a.values o).map (.value o)) ++
    (SwitchOption.all.filter a.isOn).map .switch

/-- The arguments with one more setting. -/
def apply (a : Arguments) : Setting → Arguments
  | .value o v => a.setValue o v
  | .switch o => a.setSwitch o

variable {a b : Arguments} {o : ValueOption} {l : List Setting}

theorem eq_of_values (hvalues : ∀ o, a.values o = b.values o) (hon : ∀ s, a.isOn s = b.isOn s) :
    a = b := by
  obtain ⟨outputDir, config, defineOptions, story, description, files, keep, ignore, help⟩ := a
  obtain ⟨outputDir', config', defineOptions', story', description', files', keep', ignore',
    help'⟩ := b
  have hoption {x y : Option String} (h : x.toList = y.toList) : x = y := by
    cases x <;> cases y <;> simp_all
  have houtput : outputDir = outputDir' := List.singleton_inj.1 (hvalues .outputDir)
  have hconfig : config = config' := List.singleton_inj.1 (hvalues .config)
  simp only [mk.injEq]
  exact ⟨houtput, hconfig, hvalues .defineOption, hoption (hvalues .story),
    hoption (hvalues .description), hvalues .file, hon .keepOutDir, hon .ignoreEmptyFiles,
    hon .help⟩

theorem valuesOf_settings (a : Arguments) (o : ValueOption) :
    valuesOf o a.settings = a.values o := by
  have hother (p : ValueOption) (vs : List String) : (vs.map (Setting.value p)).filterMap
      (Setting.valueFor? o) = if p = o then vs else [] := by
    split_ifs with hp <;> simp [List.filterMap_map, Function.comp_def, Setting.valueFor?, hp]
  have hswitches (l : List SwitchOption) :
      (l.map Setting.switch).filterMap (Setting.valueFor? o) = [] := by
    simp [List.filterMap_map, Function.comp_def, Setting.valueFor?]
  simp only [valuesOf, settings, List.filterMap_append, hswitches, List.append_nil,
    ValueOption.all, List.flatMap_cons, List.flatMap_nil, hother]
  cases o <;> simp

theorem switch_mem_settings (a : Arguments) (s : SwitchOption) :
    .switch s ∈ a.settings ↔ a.isOn s = true := by
  have hall : s ∈ SwitchOption.all := by cases s <;> decide
  simp [settings, hall]

/-! ## One setting after another -/

theorem values_apply_value (a : Arguments) (o p : ValueOption) (v : String) :
    (a.apply (.value p v)).values o =
      if p = o then (if o.isRepeatable then a.values o ++ [v] else [v]) else a.values o := by
  cases p <;> cases o <;> rfl

theorem values_apply_switch (a : Arguments) (o : ValueOption) (s : SwitchOption) :
    (a.apply (.switch s)).values o = a.values o := by
  cases s <;> cases o <;> rfl

theorem isOn_apply (a : Arguments) (s : SwitchOption) (t : Setting) :
    (a.apply t).isOn s = true ↔ a.isOn s = true ∨ t = .switch s := by
  cases t with
  | value o v => cases o <;> cases s <;> simp [apply, setValue, isOn]
  | switch u => cases u <;> cases s <;> simp [apply, setSwitch, isOn]

/-- An option has the values that it is given, or the last one; without any it is as it was. -/
theorem values_foldl (l : List Setting) (a : Arguments) (o : ValueOption) :
    (l.foldl apply a).values o =
      if o.isRepeatable then a.values o ++ valuesOf o l
      else ((valuesOf o l).getLast?.map ([·])).getD (a.values o) := by
  induction l using List.reverseRecOn with
  | nil => simp [valuesOf]
  | append_singleton l t ih =>
    rw [List.foldl_append, List.foldl_cons, List.foldl_nil, valuesOf, List.filterMap_append,
      ← valuesOf]
    cases t with
    | value p v =>
      rw [values_apply_value, ih]
      by_cases hp : p = o
      · by_cases ho : o.isRepeatable = true <;> simp [hp, ho, Setting.valueFor?]
      · simp [hp, Setting.valueFor?]
    | switch s =>
      have hnone : [Setting.switch s].filterMap (Setting.valueFor? o) = [] := rfl
      rw [values_apply_switch, ih, hnone, List.append_nil]

theorem isOn_foldl (l : List Setting) (a : Arguments) (s : SwitchOption) :
    (l.foldl apply a).isOn s = true ↔ a.isOn s = true ∨ .switch s ∈ l := by
  induction l generalizing a with
  | nil => simp
  | cons t l ih =>
    rw [List.foldl_cons, ih, isOn_apply, List.mem_cons, or_assoc, @eq_comm _ t]

/-- An option that keeps one value has one, or it has none, neither at the start. -/
theorem values_cases (a : Arguments) (ho : o.isRepeatable = false) :
    (∃ v, a.values o = [v]) ∨ a.values o = [] ∧ values {} o = [] := by
  have hoption (x : Option String) : (∃ v, x.toList = [v]) ∨ x.toList = [] := by
    cases x <;> simp
  cases o with
  | outputDir => exact .inl ⟨_, rfl⟩
  | config => exact .inl ⟨_, rfl⟩
  | defineOption => cases ho
  | story => exact (hoption a.story).imp_right fun h => ⟨h, rfl⟩
  | description => exact (hoption a.description).imp_right fun h => ⟨h, rfl⟩
  | file => cases ho

theorem values_start (ho : o.isRepeatable = true) : values {} o = [] := by
  cases o with
  | defineOption | file => rfl
  | outputDir | config | story | description => cases ho

/-- Settings in any order make the arguments that they are taken from, if the values of each
    repeatable option keep their order. -/
theorem foldl_perm_settings (hperm : l.Perm a.settings)
    (horder : ∀ o, o.isRepeatable = true → valuesOf o l = valuesOf o a.settings) :
    l.foldl apply {} = a := by
  refine eq_of_values (fun o => ?_) fun s => ?_
  · rw [values_foldl]
    split_ifs with ho
    · rw [horder o ho, valuesOf_settings, values_start ho, List.nil_append]
    · have hvalues : (valuesOf o l).Perm (a.values o) :=
        valuesOf_settings a o ▸ hperm.filterMap _
      rcases values_cases a (eq_false_of_ne_true ho) with ⟨v, hv⟩ | ⟨hv, hstart⟩
      · rw [hv, List.perm_singleton] at hvalues
        rw [hvalues, hv]
        rfl
      · rw [hv, List.perm_nil] at hvalues
        rw [hvalues, hv]
        exact hstart
  · have hoff : isOn {} s = false := by cases s <;> rfl
    rw [Bool.eq_iff_iff, isOn_foldl, hoff, hperm.mem_iff, switch_mem_settings]
    simp

/-! ## Reading what is written -/

/-- The arguments that are read from tokens, after some others, or the first problem of these
    tokens. -/
def finish (a : Arguments) (tokens : List ArgumentToken) : Except ArgumentProblem Arguments :=
  match tokens.findSome? ArgumentToken.problem? with
  | some problem => .error problem
  | none => .ok (tokens.foldl add a)

theorem parse_eq_finish (args : List String) :
    parse args = finish {} (ArgumentToken.scan args) := rfl

theorem finish_cons {t : ArgumentToken} (h : t.problem? = none) (a : Arguments)
    (tokens : List ArgumentToken) : finish a (t :: tokens) = finish (a.add t) tokens := by
  rw [finish, List.findSome?_cons, h, finish]
  rfl

end Arguments

/-! ## Names of options -/

namespace CommandOption

theorem ofLong?_long (o : CommandOption) : ofLong? o.long.toList = some o := by
  rcases o with o | o <;> cases o <;> decide

theorem ofShort?_short (o : CommandOption) : ofShort? o.short = some o := by
  rcases o with o | o <;> cases o <;> decide

theorem short_ne_dash (o : CommandOption) : o.short ≠ '-' := by
  rcases o with o | o <;> cases o <;> decide

theorem equals_not_mem_long (o : CommandOption) : '=' ∉ o.long.toList := by
  rcases o with o | o <;> cases o <;> decide

theorem long_ne_nil (o : CommandOption) : o.long.toList ≠ [] := by
  rcases o with o | o <;> cases o <;> decide

end CommandOption

namespace ArgumentToken

theorem readLong_name {name : List Char} (h : '=' ∉ name) : readLong name = (name, none) := by
  have hnone : (name.drop 1).contains '=' = false := by
    rw [Bool.eq_false_iff]
    exact fun hm => h (List.mem_of_mem_drop (List.contains_iff_mem.1 hm))
  rw [readLong, hnone]
  rfl

theorem readLong_value {name : List Char} (h : '=' ∉ name) (hne : name ≠ []) (value : List Char) :
    readLong (name ++ '=' :: value) = (name, some value) := by
  have hsome : ((name ++ '=' :: value).drop 1).contains '=' = true := by
    cases name with
    | nil => exact absurd rfl hne
    | cons c name => simp
  have hname : ∀ c ∈ name, (c != '=') = true := by
    intro c hc
    simpa using ne_of_mem_of_not_mem hc h
  rw [readLong, if_pos hsome, List.takeWhile_append_of_pos hname,
    List.dropWhile_append_of_pos hname]
  simp

/-! ## Tokens of single arguments -/

section
variable {argument : String} {body name value : List Char} {o : ValueOption} (rest : List String)

/-- A long name with a value in the same argument. -/
theorem scan_inline (h : argument.toList = '-' :: '-' :: body) (hne : body ≠ [])
    (hread : readLong body = (name, some value)) :
    scan (argument :: rest) = option (.ofList ('-' :: '-' :: name)) (CommandOption.ofLong? name)
      (some (.ofList value)) true :: scan rest := by
  obtain ⟨c, cs, rfl⟩ := List.exists_cons_of_ne_nil hne
  rw [scan, h]
  simp only [hread]

/-- The long name of an option that takes its value from the next argument. -/
theorem scan_name (h : argument.toList = '-' :: '-' :: name) (hne : name ≠ [])
    (hread : readLong name = (name, none)) (hfind : CommandOption.ofLong? name = some (.value o))
    (v : String) :
    scan (argument :: v :: rest) =
      option argument (some (.value o)) (some v) false :: scan rest := by
  obtain ⟨c, cs, rfl⟩ := List.exists_cons_of_ne_nil hne
  rw [scan, h]
  simp only [hread, hfind]

/-- The long name of a switch. -/
theorem scan_switch {s : SwitchOption} (h : argument.toList = '-' :: '-' :: name) (hne : name ≠ [])
    (hread : readLong name = (name, none)) (hfind : CommandOption.ofLong? name = some (.switch s)) :
    scan (argument :: rest) = option argument (some (.switch s)) none false :: scan rest := by
  obtain ⟨c, cs, rfl⟩ := List.exists_cons_of_ne_nil hne
  rw [scan, h]
  simp only [hread, hfind]

/-- The letter of an option that takes its value from the next argument. -/
theorem scan_letter (o : ValueOption)
    (h : argument.toList = ['-', (CommandOption.value o).short]) (v : String) :
    scan (argument :: v :: rest) =
      option argument (some (.value o)) (some v) false :: scan rest := by
  have hdash := CommandOption.short_ne_dash (.value o)
  have hcluster : readCluster [(CommandOption.value o).short] =
      ([], .needsValue argument (.value o)) := by
    rw [readCluster, if_neg hdash, CommandOption.ofShort?_short, ← h, String.ofList_toList]
  simp [scan, h, hdash, hcluster]

/-- The letter of an option with its value in the same argument. -/
theorem scan_joined (o : ValueOption)
    (h : argument.toList = '-' :: (CommandOption.value o).short :: value) (hne : value ≠ []) :
    scan (argument :: rest) = option (.ofList ['-', (CommandOption.value o).short])
      (some (.value o)) (some (.ofList value)) true :: scan rest := by
  have hdash := CommandOption.short_ne_dash (.value o)
  obtain ⟨c, cs, rfl⟩ := List.exists_cons_of_ne_nil hne
  have hcluster : readCluster ((CommandOption.value o).short :: c :: cs) =
      ([option (.ofList ['-', (CommandOption.value o).short]) (some (.value o))
        (some (.ofList (c :: cs))) true], .complete) := by
    rw [readCluster, if_neg hdash, CommandOption.ofShort?_short]
  simp [scan, h, hdash, hcluster]

end

end ArgumentToken

namespace Arguments

open ArgumentToken
open Setting (valuesOf)

/-! ## Command lines -/

variable {front args way : List String} {l : List Setting} {s : Setting} {v : String}

theorem finish_value (a : Arguments) (written : String) (o : ValueOption) (v : String)
    (inline : Bool) (tokens : List ArgumentToken)
    (h : inline = true ∨ looksLikeOption v = false) :
    finish a (option written (some (.value o)) (some v) inline :: tokens) =
      finish (a.apply (.value o v)) tokens := by
  refine finish_cons ?_ a tokens
  rcases h with rfl | h
  · rfl
  · cases inline <;> simp [problem?, h]

theorem not_looksLikeOption (h : IsPlainValue v) : looksLikeOption v = false := by
  unfold looksLikeOption
  split
  · next heq => simp [IsPlainValue, heq] at h
  · rfl

theorem finish_of_written (s : Setting) (a : Arguments) (back : List String) :
    finish a (scan (s.written :: back)) = finish (a.apply s) (scan back) := by
  cases s with
  | value o v =>
    have hname := CommandOption.long_ne_nil (.value o)
    have hread := readLong_value (CommandOption.equals_not_mem_long (.value o)) hname v.toList
    rw [scan_inline back (by simp [Setting.written]) (by simp) hread, CommandOption.ofLong?_long,
      String.ofList_toList]
    exact finish_value a _ o v true _ (.inl rfl)
  | switch u =>
    have hread := readLong_name (CommandOption.equals_not_mem_long (.switch u))
    rw [scan_switch back (by simp [Setting.written]) (CommandOption.long_ne_nil _) hread
      (CommandOption.ofLong?_long _)]
    exact finish_cons rfl a _

/-- **A setting is read wherever it stands behind others**, in whichever way it is written. -/
theorem finish_of_spells (h : Spells way s) (a : Arguments) (back : List String) :
    finish a (scan (way ++ back)) = finish (a.apply s) (scan back) := by
  cases h with
  | written => exact finish_of_written s a back
  | @plain o v _ hv hway =>
    have hplain := not_looksLikeOption hv
    have hvalue : v.toList ≠ [] := by simpa using hv.1
    simp only [ValueOption.spellings, List.mem_cons, List.not_mem_nil, or_false] at hway
    rcases hway with rfl | rfl | rfl | rfl
    · rw [List.cons_append, List.singleton_append, scan_letter back o (by simp) v]
      exact finish_value a _ o v false _ (.inr hplain)
    · rw [List.singleton_append, scan_joined back o (by simp) hvalue, String.ofList_toList]
      exact finish_value a _ o v true _ (.inl rfl)
    · have hread := readLong_name (CommandOption.equals_not_mem_long (.value o))
      rw [List.cons_append, List.singleton_append, scan_name back (by simp)
        (CommandOption.long_ne_nil _) hread (CommandOption.ofLong?_long _) v]
      exact finish_value a _ o v false _ (.inr hplain)
    · exact finish_of_written (.value o v) a back

theorem finish_of_line (h : Line front l) (a : Arguments) (back : List String) :
    finish a (scan (front ++ back)) = finish (l.foldl apply a) (scan back) := by
  induction h generalizing a with
  | nil => rfl
  | cons hway _ ih => rw [List.append_assoc, finish_of_spells hway, ih, List.foldl_cons]

theorem parse_of_line (h : Line args l) : parse args = .ok (l.foldl apply {}) := by
  have hline := finish_of_line h {} []
  rw [List.append_nil] at hline
  exact hline

/-- **Written arguments are read back.** Each setting in its longest form, in any order in which
    the values of a repeatable option keep theirs, is read as the arguments that have these
    settings; a plain value is read alike in each spelling, whatever follows; and of several
    values for an option that takes one, the last one counts. -/
theorem parse_written :
    (∀ (a : Arguments) (l : List Setting), l.Perm a.settings →
      (∀ o, o.isRepeatable = true → valuesOf o l = valuesOf o a.settings) →
        parse (l.map Setting.written) = .ok a) ∧
      (∀ (front back : List String) (l : List Setting) (o : ValueOption) (v : String),
        Line front l → IsPlainValue v → ∀ way ∈ o.spellings v, ∀ way' ∈ o.spellings v,
          parse (front ++ (way ++ back)) = parse (front ++ (way' ++ back))) ∧
      ∀ (args : List String) (l : List Setting) (o : ValueOption) (v : String), Line args l →
        o.isRepeatable = false → (valuesOf o l).getLast? = some v →
          ∃ a, parse args = .ok a ∧ a.values o = [v] := by
  refine ⟨fun a l hperm horder => ?_, fun front back l o v hl hv way hw way' hw' => ?_,
    fun args l o v hl ho hlast => ⟨_, parse_of_line hl, ?_⟩⟩
  · rw [parse_of_line (line_written l), foldl_perm_settings hperm horder]
  · rw [parse_eq_finish, parse_eq_finish, finish_of_line hl, finish_of_line hl,
      finish_of_spells (.plain hv hw), finish_of_spells (.plain hv hw')]
  · rw [values_foldl, ho, hlast]
    rfl

/-- Values that look like options, an exchange before an option that there is none of, and an
    output directory given twice. -/
theorem parse_written_dashes :
    parse ["--file==", "--keep-out-dir", "--define-option=--", "--story=", "--output-dir=-o",
        "--define-option=a=b", "--config=", "--file=-f"] =
      .ok { outputDir := "-o", config := "", defineOptions := ["--", "a=b"], story := some "",
            files := ["=", "-f"], keepOutDir := true } ∧
      parse (["-Dx"] ++ (["-o", "out"] ++ ["-z"])) =
        parse (["-Dx"] ++ (["--output-dir=out"] ++ ["-z"])) ∧
      ∃ a, parse ["--output-dir=a", "-ob"] = .ok a ∧ a.values .outputDir = ["b"] := by
  obtain ⟨hback, hexchange, hlast⟩ := parse_written
  have hplain : ∀ v ∈ ["x", "out", "b"], IsPlainValue v := by
    unfold IsPlainValue
    decide
  refine ⟨?_, ?_, ?_⟩
  · refine hback _ [.value .file "=", .switch .keepOutDir, .value .defineOption "--",
      .value .story "", .value .outputDir "-o", .value .defineOption "a=b", .value .config "",
      .value .file "-f"] (by decide) fun o ho => ?_
    cases o with
    | defineOption => decide
    | file => decide
    | outputDir | config | story | description => cases ho
  · have hfront : Spells ["-Dx"] (.value .defineOption "x") :=
      .plain (hplain "x" (by decide)) (by decide)
    exact hexchange _ ["-z"] _ .outputDir "out" (.cons hfront .nil) (hplain "out" (by decide)) _
      (by decide) _ (by decide)
  · have hfirst : Spells ["--output-dir=a"] (.value .outputDir "a") :=
      .written (.value .outputDir "a")
    have hsecond : Spells ["-ob"] (.value .outputDir "b") :=
      .plain (hplain "b" (by decide)) (by decide)
    exact hlast _ _ .outputDir "b" (.cons hfirst (.cons hsecond .nil)) rfl rfl

end Arguments

end Crosspost
