/-
  How finished descriptions are divided into lines.

  * `Text.endedLines`: the lines of a text that ends with a line feed;
  * `Source.Laid rendered text`: between a first and a last line that are not blank, no two
    lines of `text` in a row are empty, and its blank lines are lines of `rendered`;
  * `Source.laid_finalize`: finished text is empty or laid;
  * `Generated.laid_of_ofSource`: **so is every description that is generated**, and where
    no line was rendered as white space alone, no two lines in a row are blank.

  A line of which only white space is left is not empty and stays as it is, with the blank
  lines around it (`Generated.not_single_blank_lines`).
-/
import Mathlib.Data.List.Chain
import Crosspost.Proofs.Description.Generating
import Crosspost.Proofs.Text.Splitting
import Crosspost.Proofs.Text.Trimming

namespace Crosspost

/-- The lines of a text that ends with a line feed. -/
def Text.endedLines (text : String) : List (List Char) := (Chars.splitOn '\n' text.toList).dropLast

namespace Source

open Chars

/-! ## Runs of line feeds -/

/-- No three line feeds are left in a row, counting the `run` of them just before. -/
theorem not_feeds_collapse (run : Nat) (cs : List Char) :
    ¬ ['\n', '\n', '\n'] <:+: collapse run cs ∧
      (run ≤ 2 → ¬ List.replicate (3 - run) '\n' <+: collapse run cs) := by
  fun_induction collapse run cs with
  | case1 run =>
    refine ⟨by simp, fun hrun => ?_⟩
    rw [List.prefix_nil, List.replicate_eq_nil_iff]
    omega
  | case2 run cs hrun ih =>
    obtain ⟨hfeeds, hstart⟩ := ih
    -- what is left of the run after one more line feed
    have hnext : ¬ List.replicate (2 - run) '\n' <+: collapse (run + 1) cs := by
      have hrun' : 3 - (run + 1) = 2 - run := by omega
      exact hrun' ▸ hstart (by omega)
    have hpair : List.replicate (2 - run) '\n' <+: ['\n', '\n'] := by
      obtain rfl | rfl : run = 0 ∨ run = 1 := by omega
      · decide
      · decide
    constructor
    · rw [List.infix_cons_iff, List.cons_prefix_cons]
      rintro (⟨-, h⟩ | h)
      · exact hnext (hpair.trans h)
      · exact hfeeds h
    · intro _
      have hrun' : 3 - run = (2 - run) + 1 := by omega
      rw [hrun', List.replicate_succ, List.cons_prefix_cons]
      exact fun h => hnext h.2
  | case3 _ _ _ ih => exact ih
  | case4 run c cs hc ih =>
    constructor
    · rw [List.infix_cons_iff, List.cons_prefix_cons]
      rintro (⟨h, -⟩ | h)
      · exact hc h.symm
      · exact ih.1 h
    · intro hrun
      have hrun' : 3 - run = (2 - run) + 1 := by omega
      rw [hrun', List.replicate_succ, List.cons_prefix_cons]
      exact fun h => hc h.1.symm

/-- The lines of a text without superfluous line feeds are lines of the text, in their order. -/
theorem splitOn_collapse (cs : List Char) :
    (∀ run, (splitOn '\n' (collapse run cs)).Sublist (splitOn '\n' cs)) ∧
      ∃ first rest others, splitOn '\n' (collapse 0 cs) = first :: rest ∧
        splitOn '\n' cs = first :: others ∧ rest.Sublist others := by
  induction cs with
  | nil => exact ⟨fun _ => .refl _, [], [], [], rfl, rfl, .refl _⟩
  | cons c cs ih =>
    obtain ⟨hsub, first, rest, others, hfirst, hothers, hrest⟩ := ih
    by_cases hc : c = '\n'
    · subst hc
      have hlines : splitOn '\n' (collapse 0 ('\n' :: cs)) = [] :: splitOn '\n' (collapse 1 cs) :=
        splitOn_cons_self '\n' _
      refine ⟨fun run => ?_, [], _, _, hlines, splitOn_cons_self '\n' cs, hsub 1⟩
      rw [splitOn_cons_self, collapse, if_pos rfl]
      split_ifs
      · rw [splitOn_cons_self]
        exact (hsub (run + 1)).cons_cons _
      · exact (hsub run).cons _
    · -- the character goes to the first line, which is the same in both texts
      have hlines : ∀ run, splitOn '\n' (collapse run (c :: cs)) = (c :: first) :: rest := by
        intro run
        rw [collapse, if_neg hc, splitOn_cons_of_ne hc, hfirst]
        rfl
      have hsource : splitOn '\n' (c :: cs) = (c :: first) :: others := by
        rw [splitOn_cons_of_ne hc, hothers]
        rfl
      refine ⟨fun run => ?_, c :: first, rest, others, hlines 0, hsource, hrest⟩
      rw [hlines, hsource]
      exact hrest.cons_cons _

/-! ## Finished text -/

/-- Between a first and a last line that are not blank, no two lines of a text in a row are
    empty, and its blank lines are lines of the rendered text. -/
structure Laid (rendered text : String) : Prop where
  ended : text.toList = (Text.endedLines text).flatMap (· ++ ['\n'])
  first : ∃ l, (Text.endedLines text).head? = some l ∧ l.all isBlank = false
  last : ∃ l, (Text.endedLines text).getLast? = some l ∧ l.all isBlank = false
  single : (Text.endedLines text).IsChain fun a b => ¬ (a = [] ∧ b = [])
  blank : ∀ l ∈ Text.endedLines text, l.all isBlank = true → l ∈ splitOn '\n' rendered.toList

section
variable {cs ls : List Char} (hls : trim cs = ls) (hne : ls ≠ [])
include hls hne

theorem first_splitOn_trim : ∃ l, (splitOn '\n' ls).head? = some l ∧ l.all isBlank = false := by
  obtain ⟨c, rest, rfl⟩ := List.exists_cons_of_ne_nil hne
  have hc : isBlank c = false := trim_first hls
  have hfeed : c ≠ '\n' := by
    rintro rfl
    exact absurd hc (by decide)
  obtain ⟨tail, htail⟩ := head?_splitOn_cons hfeed rest
  exact ⟨c :: tail, htail, by simp [hc]⟩

theorem last_splitOn_trim : ∃ l, (splitOn '\n' ls).getLast? = some l ∧ l.all isBlank = false := by
  obtain ⟨front, c, rfl⟩ := (List.eq_nil_or_concat ls).resolve_left hne
  rw [List.concat_eq_append] at hls ⊢
  have hc : isBlank c = false := trim_last hls
  have hfeed : c ≠ '\n' := by
    rintro rfl
    exact absurd hc (by decide)
  obtain ⟨tail, htail⟩ := getLast?_splitOn_concat hfeed front
  exact ⟨tail ++ [c], htail, by simp [hc]⟩

/-- Lines that are blank stand between two others. -/
theorem between_of_blank {before middle after : List (List Char)} (hm : middle ≠ [])
    (h : splitOn '\n' ls = before ++ (middle ++ after))
    (hblank : ∀ l ∈ middle, l.all isBlank = true) :
    '\n' :: middle.flatMap (· ++ ['\n']) <:+: ls := by
  obtain ⟨l, hl, hfirst⟩ := first_splitOn_trim hls hne
  obtain ⟨l', hl', hlast⟩ := last_splitOn_trim hls hne
  refine between_of_splitOn h ?_ ?_
  · rintro rfl
    obtain ⟨m, rest, rfl⟩ := List.exists_cons_of_ne_nil hm
    rw [h, List.nil_append, List.cons_append, List.head?_cons, Option.some.injEq] at hl
    rw [← hl, hblank m List.mem_cons_self] at hfirst
    cases hfirst
  · rintro rfl
    obtain ⟨rest, m, rfl⟩ := (List.eq_nil_or_concat middle).resolve_left hm
    rw [h, List.append_nil, List.concat_eq_append, ← List.append_assoc,
      List.getLast?_concat, Option.some.injEq] at hl'
    rw [← hl', hblank m (by simp)] at hlast
    cases hlast

end

theorem endedLines_finished (ls : List Char) :
    Text.endedLines (.ofList (ls ++ ['\n'])) = splitOn '\n' ls := by
  rw [Text.endedLines, String.toList_ofList, splitOn_append_cons]
  exact List.dropLast_concat

/-- **Finished text is empty or laid.** -/
theorem laid_finalize (rendered : String) :
    finalize rendered = "" ∨ Laid rendered (finalize rendered) := by
  by_cases hne : trim (collapse 0 rendered.toList) = []
  · exact .inl (by simp [finalize, hne])
  · refine .inr ?_
    have htext : finalize rendered = .ofList (trim (collapse 0 rendered.toList) ++ ['\n']) := by
      simp [finalize, hne]
    generalize hls : trim (collapse 0 rendered.toList) = ls at hne htext
    have hpart : ls <:+: collapse 0 rendered.toList := hls ▸ trim_part _
    rw [htext]
    constructor
    · rw [endedLines_finished, flatMap_splitOn, String.toList_ofList]
    · rw [endedLines_finished]
      exact first_splitOn_trim hls hne
    · rw [endedLines_finished]
      exact last_splitOn_trim hls hne
    · rw [endedLines_finished, List.isChain_iff_forall_rel_of_append_cons_cons]
      rintro _ _ before after h ⟨rfl, rfl⟩
      have hfeeds : ['\n', '\n', '\n'] <:+: ls :=
        between_of_blank hls hne (List.cons_ne_nil [] [[]]) h (by simp)
      exact (not_feeds_collapse 0 _).1 (hfeeds.trans hpart)
    · intro l hl hblank
      rw [endedLines_finished] at hl
      obtain ⟨before, after, h⟩ := List.append_of_mem hl
      have hbetween : '\n' :: (l ++ ['\n']) <:+: ls := by
        simpa using between_of_blank hls hne (List.cons_ne_nil l []) h (by simpa using hblank)
      have hline : l ∈ splitOn '\n' (collapse 0 rendered.toList) :=
        mem_splitOn_of_between (not_mem_of_mem_splitOn hl) (hbetween.trans hpart)
      exact ((splitOn_collapse _).1 0).subset hline

/-- Where no line was rendered as white space alone, no two lines in a row are blank. -/
theorem Laid.single_blank {rendered text : String} (h : Laid rendered text)
    (hlines : ∀ l ∈ splitOn '\n' rendered.toList, l.all isBlank = true → l = []) :
    (Text.endedLines text).IsChain
      fun a b => ¬ (a.all isBlank = true ∧ b.all isBlank = true) := by
  rw [List.isChain_iff_forall_rel_of_append_cons_cons]
  rintro a b before after hl ⟨ha, hb⟩
  have hempty : ∀ l ∈ Text.endedLines text, l.all isBlank = true → l = [] := fun l hm hblank =>
    hlines l (h.blank l hm hblank) hblank
  exact List.isChain_iff_forall_rel_of_append_cons_cons.1 h.single hl
    ⟨hempty a (by simp [hl]) ha, hempty b (by simp [hl]) hb⟩

end Source

/-! ## Generated descriptions -/

namespace Generated

variable {R : Registry} {usernames : Usernames} {flags : List String} {source : String}
  {g : Generated}

/-- A description is empty, or the finished text that was rendered for its site. -/
theorem text_of_ofSource (h : ofSource R usernames flags source = .ok g) :
    ∀ d ∈ g.descriptions, d.text = "" ∨ ∃ ns rendered,
      Document.parse R (Source.normalize source) = .ok ns ∧
        Document.render R usernames flags ns d.site = .ok rendered ∧
        d.text = Source.finalize rendered.text := by
  intro d hd
  simp only [ofSource] at h
  split_ifs at h
  · cases h
    obtain ⟨site, -, rfl⟩ := List.mem_map.1 hd
    exact .inl rfl
  split at h
  · cases h
  · next ns hns =>
    obtain ⟨fs, hfs, rfl⟩ := ofNodes_eq_ok_iff.1 h
    rw [← List.map_uncurry_zip_eq_zipWith] at hd
    obtain ⟨⟨site, f⟩, hmem, rfl⟩ := List.mem_map.1 hd
    exact .inr ⟨ns, f, hns, (List.forall₂_iff_zip.1 hfs).2 hmem, rfl⟩

/-- **Every description is empty or laid.** -/
theorem laid_of_ofSource (h : ofSource R usernames flags source = .ok g) :
    ∀ d ∈ g.descriptions, d.text = "" ∨ ∃ ns rendered,
      Document.parse R (Source.normalize source) = .ok ns ∧
        Document.render R usernames flags ns d.site = .ok rendered ∧
        Source.Laid rendered.text d.text ∧
        ((∀ l ∈ Chars.splitOn '\n' rendered.text.toList, l.all isBlank = true → l = []) →
          (Text.endedLines d.text).IsChain
            fun a b => ¬ (a.all isBlank = true ∧ b.all isBlank = true)) := by
  intro d hd
  obtain hempty | ⟨ns, rendered, hns, hrendered, htext⟩ := text_of_ofSource h d hd
  · exact .inl hempty
  · obtain hempty | hlaid := Source.laid_finalize rendered.text
    · exact .inl (htext.trans hempty)
    · rw [← htext] at hlaid
      exact .inr ⟨ns, rendered, hns, hrendered, hlaid, hlaid.single_blank⟩

/-- A first part that is not shown, a switch that writes nothing, and a blank line of each. -/
theorem laid_of_ofSource_gap :
    let usernames : Usernames := [("furaffinity", "u")]
    let source := "[if=define==x]a[/if]\n\nb [siteurl][ib=c][/ib][/siteurl]\n\n\n[i]d[/i]\n"
    ∃ g, ofSource .builtin usernames [] source = .ok g ∧
      ∀ d ∈ g.descriptions, d.text = "" ∨ ∃ ns rendered,
        Document.parse .builtin (Source.normalize source) = .ok ns ∧
          Document.render .builtin usernames [] ns d.site = .ok rendered ∧
          Source.Laid rendered.text d.text ∧
          ((∀ l ∈ Chars.splitOn '\n' rendered.text.toList, l.all isBlank = true → l = []) →
            (Text.endedLines d.text).IsChain
              fun a b => ¬ (a.all isBlank = true ∧ b.all isBlank = true)) := by
  intro usernames source
  obtain ⟨g, h⟩ : ∃ g, ofSource .builtin usernames [] source = .ok g :=
    exists_of_isOk (by decide +kernel)
  exact ⟨g, h, laid_of_ofSource h⟩

/-- Two conditionals that show nothing leave the space between them, and the blank lines
    around that space are not one. -/
theorem not_single_blank_lines :
    ¬ ∀ (R : Registry) (usernames : Usernames) (flags : List String) (source : String)
        (g : Generated), ofSource R usernames flags source = .ok g →
      ∀ d ∈ g.descriptions, d.text = "" ∨
        (d.text.toList = (Text.endedLines d.text).flatMap (· ++ ['\n']) ∧
          (∃ l, (Text.endedLines d.text).head? = some l ∧ l.all isBlank = false) ∧
          (∃ l, (Text.endedLines d.text).getLast? = some l ∧ l.all isBlank = false) ∧
          (Text.endedLines d.text).IsChain
            fun a b => ¬ (a.all isBlank = true ∧ b.all isBlank = true)) := by
  intro h
  let source := "a\n\n[if=define==x]1[/if] [if=define==x]2[/if]\n\nb"
  have htexts : ((ofSource .builtin [("aryion", "u")] [] source).toOption.map
      fun g => g.descriptions.map (·.text)) = some ["a\n\n \n\nb\n"] := by decide +kernel
  cases hg : ofSource .builtin [("aryion", "u")] [] source with
  | error e =>
    rw [hg] at htexts
    cases htexts
  | ok g =>
    rw [hg] at htexts
    obtain ⟨d, hd, htext⟩ := List.mem_map.1
      (Option.some.inj htexts ▸ List.mem_singleton_self "a\n\n \n\nb\n")
    have hlines := h _ _ _ _ _ hg d hd
    rw [htext] at hlines
    exact absurd (hlines.resolve_left (by decide)).2.2.2 (by decide +kernel)

end Generated

end Crosspost
