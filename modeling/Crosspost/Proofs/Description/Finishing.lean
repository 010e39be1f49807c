/-
  Finished text is a normal form that keeps what is written.

  White space at both ends of a rendered text goes, long runs of line feeds are cut, and one
  line feed ends the text. Trimming and cutting can be done in either order.

  * `Source.Shortens cs ds`: `ds` is `cs` with every run of line feeds cut to two;
    `Source.shortens_collapse`, `Source.Shortens.eq_collapse`: this is what `Source.collapse`
    does;
  * `Source.trim_collapse`: a text is trimmed before its runs are cut, or after that;
  * `Source.Finishes text result` and `Source.finishes_finalize`: **finished text keeps the
    characters that are not white space, and no others but what is between them**;
    `Source.finalize_finalize`: it is finished already;
  * `Source.isBlank_normalize`: a source is blank before it is normalized, or after that;
  * `Generated.ofSource_eq`, `Generated.map_descriptions_ofNormalized`: **a blank source makes
    the descriptions that reading and rendering it would make.**
-/
import Crosspost.Proofs.Description.Echoes
import Crosspost.Proofs.Description.Layout
import Crosspost.Proofs.Description.Padding
import Crosspost.Proofs.Site.Lookup
import Crosspost.Proofs.Text.Runs

namespace Crosspost

open Chars

/-! ## Characters that are not white space -/

namespace Chars

variable {cs ds : List Char}

/-- The characters of a text that are not white space. -/
def visible (cs : List Char) : List Char := cs.filter (!isBlank ·)

theorem visible_append (cs ds : List Char) : visible (cs ++ ds) = visible cs ++ visible ds :=
  List.filter_append ..

theorem visible_eq_nil_iff : visible cs = [] ↔ cs.all isBlank = true := by
  simp [visible]

theorem visible_of_blank (h : ∀ c ∈ cs, isBlank c = true) : visible cs = [] :=
  visible_eq_nil_iff.2 (List.all_eq_true.2 h)

/-- Trimming keeps whatever is not white space. -/
theorem visible_trim (cs : List Char) : visible (trim cs) = visible cs := by
  obtain ⟨lead, tail, hcs, hlead, htail⟩ := exists_append_trim cs
  have hparts := congrArg visible hcs
  rw [visible_append, visible_append, visible_of_blank hlead, visible_of_blank htail,
    List.nil_append, List.append_nil] at hparts
  exact hparts.symm

theorem all_isBlank_congr (h : visible cs = visible ds) : cs.all isBlank = ds.all isBlank := by
  rw [Bool.eq_iff_iff, ← visible_eq_nil_iff, ← visible_eq_nil_iff, h]

/-- Separators that are white space do not count. -/
theorem visible_intercalate {sep : Char} (hsep : isBlank sep = true) (pieces : List (List Char)) :
    visible ([sep].intercalate pieces) = pieces.flatMap visible := by
  induction pieces with
  | nil => rfl
  | cons piece pieces ih =>
    cases pieces with
    | nil => simp
    | cons next rest =>
      have hblank : visible [sep] = [] := visible_of_blank (List.forall_mem_singleton.2 hsep)
      rw [List.intercalate_cons_cons, visible_append, visible_append, ih, hblank,
        List.append_nil, List.flatMap_cons, List.flatMap_cons, List.flatMap_cons]

end Chars

namespace Source

/-! ## Runs of line feeds -/

/-- The second text is the first one with every run of three or more line feeds cut to two. -/
inductive Shortens : List Char → List Char → Prop
  | nil : Shortens [] []
  | char {c : Char} {cs ds : List Char} : c ≠ '\n' → Shortens cs ds → Shortens (c :: cs) (c :: ds)
  | feeds (n : Nat) {cs ds : List Char} : Stops (· == '\n') cs → Shortens cs ds →
      Shortens (List.replicate n '\n' ++ cs) (List.replicate (min n 2) '\n' ++ ds)

section
variable {cs ds : List Char} {c : Char}

theorem collapse_cons_of_ne (hc : c ≠ '\n') (run : Nat) (cs : List Char) :
    collapse run (c :: cs) = c :: collapse 0 cs := by
  rw [collapse, if_neg hc]

/-- A run ends where no line feed follows. -/
theorem collapse_of_stops (h : Stops (· == '\n') cs) (run : Nat) :
    collapse run cs = collapse 0 cs := by
  cases cs with
  | nil => rfl
  | cons c cs =>
    have hc : c ≠ '\n' := by simpa using h c rfl
    rw [collapse_cons_of_ne hc, collapse_cons_of_ne hc]

/-- A run of line feeds goes on after the ones just before. -/
theorem collapse_feeds (h : Stops (· == '\n') cs) {run : Nat} (hrun : run ≤ 2) (n : Nat) :
    collapse run (List.replicate n '\n' ++ cs) =
      List.replicate (min n (2 - run)) '\n' ++ collapse 0 cs := by
  induction n generalizing run with
  | zero => simpa using collapse_of_stops h run
  | succ n ih =>
    rw [List.replicate_succ, List.cons_append, collapse, if_pos rfl]
    split_ifs with hlt
    · have hmin : min (n + 1) (2 - run) = min n (2 - (run + 1)) + 1 := by omega
      rw [ih (by omega), hmin, List.replicate_succ, List.cons_append]
    · have hmin : min (n + 1) (2 - run) = min n (2 - run) := by omega
      rw [ih hrun, hmin]

theorem Shortens.eq_collapse (h : Shortens cs ds) : ds = collapse 0 cs := by
  induction h with
  | nil => rfl
  | char hc _ ih => rw [collapse_cons_of_ne hc, ih]
  | feeds n hstops _ ih => rw [collapse_feeds hstops (Nat.zero_le 2), ih]

/-- A text starts with a run of line feeds, which may have none. -/
theorem exists_feeds_append (cs : List Char) :
    ∃ n rest, cs = List.replicate n '\n' ++ rest ∧ Stops (· == '\n') rest := by
  refine ⟨(cs.takeWhile (· == '\n')).length, cs.dropWhile (· == '\n'), ?_, ?_⟩
  · have hfeeds : cs.takeWhile (· == '\n') =
        List.replicate (cs.takeWhile (· == '\n')).length '\n' :=
      List.eq_replicate_iff.2 ⟨rfl, fun c hc => by simpa using List.mem_takeWhile_imp hc⟩
    rw [← hfeeds, List.takeWhile_append_dropWhile]
  · intro c hc
    have hnot := List.head?_dropWhile_not (· == '\n') cs
    rw [Option.mem_def.1 hc] at hnot
    exact hnot

/-- **Runs of three or more line feeds are cut to two**, and every other character is kept. -/
theorem shortens_collapse (cs : List Char) : Shortens cs (collapse 0 cs) := by
  -- a run of line feeds and one more character are done at a time
  induction hn : cs.length using Nat.strong_induction_on generalizing cs with
  | _ n ih =>
    obtain ⟨m, rest, rfl, hrest⟩ := exists_feeds_append cs
    rw [collapse_feeds hrest (Nat.zero_le 2)]
    refine .feeds m hrest ?_
    cases rest with
    | nil => exact .nil
    | cons c rest =>
      have hc : c ≠ '\n' := by simpa using hrest c rfl
      rw [collapse_cons_of_ne hc]
      exact .char hc (ih rest.length (by simp at hn; omega) rest rfl)

/-- What stands before and after a character that is no line feed is cut on its own. -/
theorem collapse_append_cons (hc : c ≠ '\n') (run : Nat) (cs ds : List Char) :
    collapse run (cs ++ c :: ds) = collapse run cs ++ c :: collapse 0 ds := by
  induction cs generalizing run with
  | nil => exact collapse_cons_of_ne hc run ds
  | cons d cs ih =>
    rw [List.cons_append, collapse, collapse]
    split_ifs <;> simp [ih]

/-- Only line feeds are left out. -/
theorem visible_collapse (run : Nat) (cs : List Char) : visible (collapse run cs) = visible cs := by
  have hfeed : isBlank '\n' = true := by decide
  induction cs generalizing run with
  | nil => rfl
  | cons c cs ih =>
    rw [collapse]
    split_ifs with hc <;> simp_all [visible, List.filter_cons]

/-- A text without long runs stays as it is. -/
theorem collapse_of_not_feeds {run : Nat} (hrun : run ≤ 2) (h : ¬ ['\n', '\n', '\n'] <:+: cs)
    (hstart : ¬ List.replicate (3 - run) '\n' <+: cs) : collapse run cs = cs := by
  induction cs generalizing run with
  | nil => rfl
  | cons c cs ih =>
    have hrest : ¬ ['\n', '\n', '\n'] <:+: cs := fun hcs =>
      h (hcs.trans (List.suffix_cons c cs).isInfix)
    rw [collapse]
    split_ifs with hc hlt
    · subst hc
      have hnext : 3 - run = (3 - (run + 1)) + 1 := by omega
      rw [hnext, List.replicate_succ, List.cons_prefix_cons, not_and] at hstart
      rw [ih (by omega) hrest (hstart rfl)]
    · subst hc
      obtain rfl : run = 2 := by omega
      exact absurd (List.prefix_append ['\n'] cs) hstart
    · rw [ih (Nat.zero_le 2) hrest fun hcs => hrest hcs.isInfix]

theorem collapse_collapse (cs : List Char) : collapse 0 (collapse 0 cs) = collapse 0 cs := by
  obtain ⟨hfeeds, hstart⟩ := not_feeds_collapse 0 cs
  exact collapse_of_not_feeds (Nat.zero_le 2) hfeeds (hstart (Nat.zero_le 2))

end

/-! ## Both ends -/

section
variable {cs : List Char}

/-- The ends of trimmed characters. -/
theorem exists_ends_trim (h : trim cs ≠ []) : (∃ c rest, trim cs = c :: rest ∧ isBlank c = false) ∧
    ∃ front d, trim cs = front ++ [d] ∧ isBlank d = false := by
  obtain ⟨c, rest, hc⟩ := List.exists_cons_of_ne_nil h
  obtain ⟨front, d, hd⟩ := (List.eq_nil_or_concat (trim cs)).resolve_left h
  rw [List.concat_eq_append] at hd
  exact ⟨⟨c, rest, hc, trim_first hc⟩, front, d, hd, trim_last hd⟩

theorem ne_feed_of_not_isBlank {c : Char} (h : isBlank c = false) : c ≠ '\n' := by
  rintro rfl
  exact absurd h (by decide)

/-- The ends of trimmed characters are kept. -/
theorem exists_ends_collapse_trim (h : trim cs ≠ []) :
    (∃ c rest, collapse 0 (trim cs) = c :: rest ∧ isBlank c = false) ∧
      ∃ front d, collapse 0 (trim cs) = front ++ [d] ∧ isBlank d = false := by
  obtain ⟨⟨c, rest, hc, hcblank⟩, front, d, hd, hdblank⟩ := exists_ends_trim h
  refine ⟨⟨c, collapse 0 rest, ?_, hcblank⟩, collapse 0 front, d, ?_, hdblank⟩
  · rw [hc, collapse_cons_of_ne (ne_feed_of_not_isBlank hcblank)]
  · rw [hd, collapse_append_cons (ne_feed_of_not_isBlank hdblank)]
    rfl

theorem trim_collapse_trim (cs : List Char) :
    trim (collapse 0 (trim cs)) = collapse 0 (trim cs) := by
  by_cases h : trim cs = []
  · rw [h]
    rfl
  · obtain ⟨⟨c, rest, hc, hcblank⟩, front, d, hd, hdblank⟩ := exists_ends_collapse_trim h
    refine trim_of_ends ?_ ?_
    · rw [hc]
      simpa using hcblank
    · rw [hd]
      simpa using hdblank

/-- Runs of line feeds before and after trimmed characters are cut on their own. -/
theorem collapse_append_trim_append (h : trim cs ≠ []) (lead tail : List Char) :
    collapse 0 (lead ++ (trim cs ++ tail)) =
      collapse 0 lead ++ (collapse 0 (trim cs) ++ collapse 0 tail) := by
  obtain ⟨⟨c, rest, hc, hcblank⟩, front, d, hd, hdblank⟩ := exists_ends_trim h
  have hlast : collapse 0 (trim cs ++ tail) = collapse 0 (trim cs) ++ collapse 0 tail := by
    rw [hd, List.append_assoc, List.singleton_append,
      collapse_append_cons (ne_feed_of_not_isBlank hdblank),
      collapse_append_cons (ne_feed_of_not_isBlank hdblank)]
    simp [collapse]
  have hfirst := collapse_append_cons (ne_feed_of_not_isBlank hcblank) 0 lead (rest ++ tail)
  rwa [← collapse_cons_of_ne (ne_feed_of_not_isBlank hcblank) 0, ← List.cons_append, ← hc,
    hlast] at hfirst

theorem isBlank_of_mem_collapse (h : ∀ c ∈ cs, isBlank c = true) :
    ∀ c ∈ collapse 0 cs, isBlank c = true := by
  rw [← List.all_eq_true, all_isBlank_congr (visible_collapse 0 cs)]
  exact List.all_eq_true.2 h

/-- **A text is trimmed before its runs of line feeds are cut, or after that.** -/
theorem trim_collapse (cs : List Char) : trim (collapse 0 cs) = collapse 0 (trim cs) := by
  by_cases h : trim cs = []
  · have hblank : (collapse 0 cs).all isBlank = true := by
      rw [all_isBlank_congr (visible_collapse 0 cs), ← trim_eq_nil_iff, h]
    rw [h, (trim_eq_nil_iff _).2 hblank]
    rfl
  · obtain ⟨lead, tail, hcs, hlead, htail⟩ := exists_append_trim cs
    have hsplit := collapse_append_trim_append h lead tail
    rw [← hcs] at hsplit
    rw [hsplit, trim_append_of_blank (isBlank_of_mem_collapse hlead)
      (isBlank_of_mem_collapse htail), trim_collapse_trim]

end

/-! ## Finished text -/

/-- A result keeps the characters of a text that are not white space, and what is between them
    but for long runs of line feeds. It is empty, or ended by a line feed. -/
structure Finishes (text result : String) : Prop where
  empty_iff : result = "" ↔ Text.isBlank text = true
  visible : Chars.visible result.toList = Chars.visible text.toList
  single : ¬ ['\n', '\n', '\n'] <:+: result.toList
  body : Text.isBlank text = false → ∃ body, result.toList = body ++ ['\n'] ∧
    (∃ c ∈ body.head?, isBlank c = false) ∧ (∃ c ∈ body.getLast?, isBlank c = false) ∧
      Shortens (trim text.toList) body

variable {text : String}

theorem finalize_eq (text : String) : finalize text =
    if Text.isBlank text then "" else .ofList (collapse 0 (trim text.toList) ++ ['\n']) := by
  have hblank : (trim (collapse 0 text.toList)).isEmpty = Text.isBlank text := by
    rw [Bool.eq_iff_iff, List.isEmpty_iff, trim_eq_nil_iff,
      all_isBlank_congr (visible_collapse 0 text.toList), Text.isBlank]
  rw [finalize, hblank, trim_collapse]

theorem finalize_of_isBlank (h : Text.isBlank text = true) : finalize text = "" := by
  rw [finalize_eq, if_pos h]

theorem toList_finalize (h : Text.isBlank text = false) :
    (finalize text).toList = collapse 0 (trim text.toList) ++ ['\n'] := by
  rw [finalize_eq, if_neg (by simp [h]), String.toList_ofList]

theorem trim_ne_nil (h : Text.isBlank text = false) : trim text.toList ≠ [] := by
  rw [Ne, trim_eq_nil_iff, ← Text.isBlank, h]
  exact Bool.false_ne_true

/-- **Finished text keeps what is written.** -/
theorem finishes_finalize (text : String) : Finishes text (finalize text) := by
  cases h : Text.isBlank text with
  | true =>
    rw [finalize_of_isBlank h]
    have hvisible : visible text.toList = [] := visible_eq_nil_iff.2 h
    exact ⟨iff_of_true rfl h, hvisible.symm, by decide, fun hnot => by simp [h] at hnot⟩
  | false =>
    have hlist := toList_finalize h
    obtain ⟨⟨c, rest, hc, hcblank⟩, front, d, hd, hdblank⟩ :=
      exists_ends_collapse_trim (trim_ne_nil h)
    have hfeed : visible ['\n'] = [] := by decide
    constructor
    · refine iff_of_false (fun hempty => ?_) (by simp [h])
      rw [hempty] at hlist
      simp at hlist
    · rw [hlist, visible_append, visible_collapse, visible_trim, hfeed, List.append_nil]
    · obtain ⟨hfeeds, -⟩ := not_feeds_collapse 0 (trim text.toList)
      -- three line feeds with the last one would need a line feed just before it
      rw [hlist, List.infix_concat_iff]
      rintro (⟨pre, hpre⟩ | hinfix)
      · rw [hd] at hpre
        have hlast := congrArg (·.dropLast.getLast?) hpre
        simp at hlast
        exact ne_feed_of_not_isBlank hdblank hlast.symm
      · exact hfeeds hinfix
    · intro _
      exact ⟨_, hlist, ⟨c, by simp [hc], hcblank⟩, ⟨d, by simp [hd], hdblank⟩, shortens_collapse _⟩

/-- **Finished text is finished already.** -/
theorem finalize_finalize (text : String) : finalize (finalize text) = finalize text := by
  cases h : Text.isBlank text with
  | true =>
    rw [finalize_of_isBlank h]
    rfl
  | false =>
    have hlist := toList_finalize h
    have hnot : Text.isBlank (finalize text) = false := by
      rw [Text.isBlank, all_isBlank_congr (finishes_finalize text).visible, ← Text.isBlank, h]
    have hfeed : ∀ c ∈ ['\n'], isBlank c = true := List.forall_mem_singleton.2 (by decide)
    apply String.toList_injective
    rw [toList_finalize hnot, hlist, trim_append_of_blank_end hfeed, trim_collapse_trim,
      collapse_collapse]

/-! ## Blank sources -/

/-- Normalizing a source keeps whatever is not white space. -/
theorem visible_normalize (raw : String) :
    visible (normalize raw).toList = visible raw.toList := by
  have hfeed : isBlank '\n' = true := by decide
  have hpieces : (pieces raw.toList).flatMap visible =
      (splitOn '\n' raw.toList).flatMap visible := by
    rw [pieces, List.flatMap_map]
    exact List.flatMap_congr fun piece _ => visible_trim piece
  rw [toList_normalize, visible_intercalate hfeed, hpieces, ← visible_intercalate hfeed,
    intercalate_splitOn]

theorem isBlank_normalize (raw : String) : Text.isBlank (normalize raw) = Text.isBlank raw :=
  all_isBlank_congr (visible_normalize raw)

end Source

namespace Generated

variable {R : Registry} {usernames : Usernames} {flags : List String} {source : String}

/-- The descriptions that a normalized source makes when it is read and rendered. -/
def ofNormalized (R : Registry) (usernames : Usernames) (flags : List String)
    (normalized : String) : Except GenerateError Generated :=
  match Document.parse R normalized with
  | .error e => .error (.parse e)
  | .ok nodes => ofNodes R usernames flags nodes (targets R usernames)

/-- The descriptions of a blank source. -/
def blank (R : Registry) (usernames : Usernames) : List SiteDescription :=
  (targets R usernames).map (describe · .empty)

/-- A source that is not blank is read and rendered. -/
theorem ofSource_eq (R : Registry) (usernames : Usernames) (flags : List String)
    (source : String) : ofSource R usernames flags source =
      if Text.isBlank source then .ok ⟨blank R usernames, []⟩
      else ofNormalized R usernames flags (Source.normalize source) := by
  cases hparse : Document.parse R (Source.normalize source) <;>
    simp only [ofSource, Source.isBlank_normalize, blank, ofNormalized, hparse]

/-- A blank source is read as its white space. -/
theorem parse_of_isBlank (R : Registry) (h : Text.isBlank source = true) :
    Document.parse R source = .ok (if source = "" then [] else [.text source]) := by
  rw [Document.parse, Document.ofTokens_eq_ok_iff]
  split_ifs with hempty
  · rw [hempty]
    exact .nil
  · have hbracket : '[' ∉ source.toList := fun hm =>
      absurd (List.all_eq_true.1 h _ hm) (by decide)
    rw [Token.ofSource, Lexeme.scan_of_not_mem hbracket hempty]
    have htext : Grammar.Derives R (.node .block (.text (.ofList source.toList)))
        [⟨.text source.toList, Cursor.start.position⟩] := .text
    rw [String.ofList_toList] at htext
    exact .cons htext .nil

/-- What is read of a blank source is rendered as that source. -/
theorem render_text {site : Site} (hsite : site ∈ R.sites) :
    Document.render R usernames flags (if source = "" then [] else [.text source]) site.id =
      .ok (.ofText source) := by
  rw [Document.render, Registry.get?_of_mem hsite]
  split_ifs with hempty
  · rw [hempty]
    rfl
  · simp [Node.renderAll, Node.render, Except.map, Fragment.append, Fragment.ofText,
      Fragment.empty]

theorem describe_of_isBlank (h : Text.isBlank source = true) (site : Site) :
    describe site (.ofText source) = describe site .empty := by
  have hfinal : Source.finalize source = Source.finalize "" := by
    rw [Source.finalize_of_isBlank h, Source.finalize_of_isBlank rfl]
  simp only [describe, Fragment.ofText, Fragment.empty, hfinal]

/-- **A blank source makes the descriptions that reading and rendering it would make.** -/
theorem map_descriptions_ofNormalized (R : Registry) (usernames : Usernames) (flags : List String)
    (h : Text.isBlank source = true) :
    (ofNormalized R usernames flags source).map descriptions = .ok (blank R usernames) := by
  have hsites : List.Forall₂ (fun s f => Document.render R usernames flags
      (if source = "" then [] else [.text source]) s.id = .ok f) (targets R usernames)
      ((targets R usernames).map fun _ => Fragment.ofText source) := by
    rw [List.forall₂_map_right_iff, List.forall₂_same]
    exact fun site hsite => render_text (List.mem_of_mem_filter hsite)
  rw [ofNormalized, parse_of_isBlank R h]
  dsimp only
  rw [ofNodes_eq_ok_iff.2 ⟨_, hsites, rfl⟩]
  simp only [Except.map, blank]
  congr 1
  rw [List.zipWith_map_right, List.zipWith_self]
  exact List.map_congr_left fun site _ => describe_of_isBlank h site

end Generated

end Crosspost
