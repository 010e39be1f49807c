/-
  Paragraphs that get another style.

  A document is a table of styles and paragraphs; each paragraph opens with its own control word,
  the run of its style and further control words, which come before its text.

  * `ControlWord.IsPlain`: a control word that is taken neither for the number of a style nor for a
    link, nor for the start of a link;
  * `Paragraph.scan_chars`, `StyledDocument.scan_text`: no style is found in a paragraph, so just
    those of the table are;
  * `StyleEntry.of_run_prefix_word`, `StyleEntry.not_run_prefix_body`: the run of a style starts
    only where its number stands with no link after it;
  * `StyledDocument.swap_text`: **a swap rewrites just the paragraphs of one style**, and a second
    one changes nothing.
-/
import Mathlib.Data.List.Nodup
import Mathlib.Data.List.TakeWhile
import Crosspost.Proofs.Story.StyleTables
import Crosspost.Proofs.Text.Replacing

namespace Crosspost

open Chars

/-! ## Plain control words -/

namespace ControlWord

variable {word rest : List Char} {words : List (List Char)} {stem : String}

/-- A control word is `stem` and then digits. -/
def IsNumbered (stem : String) (word : List Char) : Prop :=
  ∃ ds, ds ≠ [] ∧ (∀ c ∈ ds, c.isDigit = true) ∧ word = stem.toList ++ ds

theorem isNumbered_iff : IsNumbered stem word ↔ stem.toList <+: word ∧
    word.drop stem.toList.length ≠ [] ∧
      (word.drop stem.toList.length).all Char.isDigit = true := by
  rw [List.all_eq_true]
  constructor
  · rintro ⟨ds, hne, hds, rfl⟩
    rw [List.drop_left]
    exact ⟨List.prefix_append _ _, hne, hds⟩
  · rintro ⟨⟨ds, rfl⟩, hne, hds⟩
    rw [List.drop_left] at hne hds
    exact ⟨ds, hne, hds, rfl⟩

instance (stem : String) (word : List Char) : Decidable (IsNumbered stem word) :=
  decidable_of_iff _ isNumbered_iff.symm

/-- What the numbers of links come after. -/
def linkStems : List String := ["sbasedon", "snext"]

/-- What the numbers of styles come after. -/
def stems : List String := "s" :: linkStems

/-- A control word that says nothing on styles: it is none of their numbers, and no part of one. -/
structure IsPlain (word : List Char) : Prop where
  isWord : IsWord word
  not_isNumbered : ∀ stem ∈ stems, ¬ IsNumbered stem word
  isDigit_getLast? : word.head? = some 's' → ∀ c ∈ word.getLast?, c.isDigit = true

instance (word : List Char) : Decidable (IsPlain word) :=
  decidable_of_iff (IsWord word ∧ (∀ stem ∈ stems, ¬ IsNumbered stem word) ∧
      (word.head? = some 's' → word.getLast?.all Char.isDigit = true))
    ⟨fun h => ⟨h.1, h.2.1, fun hs => (Option.all_eq_true _ _).1 (h.2.2 hs)⟩,
      fun h => ⟨h.1, h.2, fun hs => (Option.all_eq_true _ _).2 (h.3 hs)⟩⟩

theorem isLetter_of_mem_stem (hstem : stem ∈ stems) : ∀ c ∈ stem.toList, isLetter c = true := by
  have hall : ∀ stem ∈ stems, stem.toList.all isLetter = true := by decide
  exact List.all_eq_true.1 (hall stem hstem)

theorem isDigit_of_mem_stem (hstem : stem ∈ stems) : ∀ c ∈ stem.toList, c.isDigit = false := by
  have hall : ∀ stem ∈ stems, stem.toList.all (!·.isDigit) = true := by decide
  simpa using hall stem hstem

theorem isLetter_of_mem_decimal {n : Nat} : ∀ c ∈ decimal n, isLetter c = true := fun _ hc =>
  isLetter_of_isDigit (isDigit_of_mem_decimal hc)

theorem isLetter_of_mem_number (n : Nat) : ∀ c ∈ "s".toList ++ decimal n, isLetter c = true := by
  rw [List.forall_mem_append]
  exact ⟨isLetter_of_mem_stem (by decide), isLetter_of_mem_decimal⟩

theorem isNumbered_append_decimal (stem : String) (n : Nat) :
    IsNumbered stem (stem.toList ++ decimal n) :=
  ⟨decimal n, decimal_ne_nil n, fun _ => isDigit_of_mem_decimal, rfl⟩

/-- A control word with another letter after the first is not the number of a style, -/
theorem ne_number {c : Char} (hc : c ∈ word.drop 1) (hdigit : c.isDigit = false) (n : Nat) :
    word ≠ "s".toList ++ decimal n := by
  rintro rfl
  have hmem : c ∈ decimal n := by simpa using hc
  rw [isDigit_of_mem_decimal hmem] at hdigit
  cases hdigit

/-- and so a link is none. -/
theorem link_ne_number (hstem : stem ∈ linkStems) (m n : Nat) :
    stem.toList ++ decimal m ≠ "s".toList ++ decimal n := by
  have hletter : ∀ stem ∈ linkStems, stem.toList.drop 1 ≠ [] := by decide
  have hlength : ∀ stem ∈ linkStems, 1 ≤ stem.toList.length := by decide
  obtain ⟨c, hc⟩ := List.exists_mem_of_ne_nil _ (hletter stem hstem)
  have hdigit := isDigit_of_mem_stem (List.mem_cons_of_mem _ hstem) c (List.mem_of_mem_drop hc)
  refine ne_number (c := c) ?_ hdigit n
  rw [List.drop_append_of_le_length (hlength stem hstem)]
  exact List.mem_append_left _ hc

/-- A plain control word is no start of a stem, -/
theorem IsPlain.not_prefix_stem (h : IsPlain word) (hstem : stem ∈ stems) :
    ¬ word <+: stem.toList := by
  intro hstart
  have hheads : ∀ stem ∈ stems, stem.toList.head? = some 's' := by decide
  obtain ⟨c, cs, rfl⟩ := List.exists_cons_of_ne_nil h.isWord.1
  have hhead : (c :: cs).head? = some 's' := by
    obtain ⟨more, hmore⟩ := hstart
    rw [← hheads stem hstem, ← hmore]
    rfl
  have hlast := h.isDigit_getLast? hhead _ (List.getLast?_eq_some_getLast (List.cons_ne_nil c cs))
  rw [isDigit_of_mem_stem hstem _ (hstart.subset (List.getLast_mem _))] at hlast
  cases hlast

/-- and no start of a stem with a number. -/
theorem IsPlain.not_prefix_numbered (h : IsPlain word) (hstem : stem ∈ stems) (n : Nat) :
    ¬ word <+: stem.toList ++ decimal n := by
  rintro ⟨back, hback⟩
  rcases List.append_eq_append_iff.1 hback with ⟨more, hword, -⟩ | ⟨more, rfl, hmore⟩
  · exact h.not_prefix_stem hstem ⟨more, hword.symm⟩
  · by_cases hne : more = []
    · rw [hne, List.append_nil] at h
      exact h.not_prefix_stem hstem List.prefix_rfl
    · refine h.not_isNumbered stem hstem ⟨more, hne, fun c hc => ?_, rfl⟩
      exact isDigit_of_mem_decimal (n := n) (hmore ▸ List.mem_append_left _ hc)

end ControlWord

/-! ## No styles in paragraphs -/

namespace Style

open ControlWord

variable {stem : String} {word rest : List Char}

/-- A number is read after a backslash, its stem and digits; what follows is no digit. -/
theorem of_readNumbered? {cs ds : List Char} (h : readNumbered? stem cs = some (ds, rest)) :
    cs = '\\' :: (stem.toList ++ (ds ++ rest)) ∧ ds ≠ [] ∧ ∀ c ∈ ds, c.isDigit = true := by
  rw [readNumbered?] at h
  cases hafter : after? ('\\' :: stem.toList) cs with
  | none => simp [hafter] at h
  | some tail =>
    simp only [hafter] at h
    split at h
    · cases h
    · next hne =>
      obtain ⟨rfl, rfl⟩ := Prod.mk.inj (Option.some.inj h)
      rw [List.takeWhile_append_dropWhile]
      exact ⟨after?_eq_some_iff.1 hafter, hne, fun c => List.mem_takeWhile_imp⟩

theorem readNumbered?_eq_none {cs : List Char} (h : cs.head? ≠ some '\\') :
    readNumbered? stem cs = none := by
  rw [Option.eq_none_iff_forall_ne_some]
  rintro ⟨ds, rest⟩ hread
  rw [(of_readNumbered? hread).1] at h
  exact h rfl

theorem readBody?_eq_none {cs : List Char} (h : cs.head? ≠ some '\\') : readBody? cs = none := by
  have hnone : ∀ limit, readAll limit cs = ([], cs) := by
    intro limit
    cases limit with
    | zero => rfl
    | succ limit => rw [readAll, read?_eq_none h]
  rw [readBody?, hnone]
  rfl

/-- A plain control word is not read as a number with another control word after it. -/
theorem head?_ne_of_readNumbered? (hstem : stem ∈ stems) (h : IsPlain word)
    (hrest : Stops isLetter rest) {ds more : List Char}
    (hread : readNumbered? stem ('\\' :: (word ++ rest)) = some (ds, more)) :
    more.head? ≠ some '\\' := by
  intro hmore
  obtain ⟨hcs, hne, hds⟩ := of_readNumbered? hread
  obtain ⟨more, rfl⟩ := List.head?_eq_some_iff.1 hmore
  have heq : word ++ rest = (stem.toList ++ ds) ++ '\\' :: more := by
    rw [(List.cons.inj hcs).2, List.append_assoc]
  have hletters : ∀ c ∈ stem.toList ++ ds, isLetter c = true := by
    rw [List.forall_mem_append]
    exact ⟨isLetter_of_mem_stem hstem, fun c hc => isLetter_of_isDigit (hds c hc)⟩
  obtain ⟨hword, -⟩ :=
    append_inj_of_stops h.isWord.2 hletters hrest (stops_cons (by decide) _) heq
  exact h.not_isNumbered stem hstem ⟨ds, hne, hds, hword⟩

theorem skipBased_of_head?_ne {cs : List Char} (h : cs.head? ≠ some '\\') : skipBased cs = cs := by
  rw [skipBased, readNumbered?_eq_none h]

/-- No entry starts with a plain control word. -/
theorem read?_plain (h : IsPlain word) (hrest : Stops isLetter rest) :
    read? ('\\' :: (word ++ rest)) = none := by
  rw [read?_eq]
  cases hread : readNumbered? "s" ('\\' :: (word ++ rest)) with
  | none => rfl
  | some found =>
    obtain ⟨ds, more⟩ := found
    have hmore := head?_ne_of_readNumbered? (by decide) h hrest hread
    rw [Option.bind_some, skipBased_of_head?_ne hmore, readNumbered?_eq_none hmore]
    rfl

/-- Nor does one with a number that a plain control word follows. -/
theorem read?_numbered_plain (n : Nat) (h : IsPlain word) (hrest : Stops isLetter rest) :
    read? (numbered "s" n ++ '\\' :: (word ++ rest)) = none := by
  rw [read?_eq, readNumbered?_numbered "s" n (stops_cons (by decide) _), Option.bind_some]
  cases hbased : readNumbered? "sbasedon" ('\\' :: (word ++ rest)) with
  | some found =>
    obtain ⟨ds, more⟩ := found
    have hmore := head?_ne_of_readNumbered? (by decide) h hrest hbased
    have hskip : skipBased ('\\' :: (word ++ rest)) = more := by rw [skipBased, hbased]
    rw [hskip, readNumbered?_eq_none hmore]
    rfl
  | none =>
    have hskip : skipBased ('\\' :: (word ++ rest)) = '\\' :: (word ++ rest) := by
      rw [skipBased, hbased]
    rw [hskip]
    cases hnext : readNumbered? "snext" ('\\' :: (word ++ rest)) with
    | none => rfl
    | some found =>
      obtain ⟨ds, more⟩ := found
      have hmore := head?_ne_of_readNumbered? (by decide) h hrest hnext
      rw [Option.bind_some, readBody?_eq_none hmore]
      rfl

end Style

namespace StyleSheet

open ControlWord StyleEntry

variable {words : List (List Char)} {rest : List Char} {e : StyleEntry}

theorem not_mem_of_isLetter {word : List Char} (h : ∀ c ∈ word, isLetter c = true) :
    '\\' ∉ word := fun hc => absurd (h '\\' hc) (by decide)

/-- Plain control words start no entry. -/
theorem scan_written (h : ∀ word ∈ words, IsPlain word) (hrest : Stops isLetter rest) :
    scan 0 (written words ++ rest) = scan 0 rest := by
  induction words with
  | nil => rfl
  | cons word words ih =>
    obtain ⟨hword, hwords⟩ := List.forall_mem_cons.1 h
    have hstop := stops_written hrest words
    rw [written_cons, List.cons_append, List.append_assoc,
      scan_word (not_mem_of_isLetter hword.isWord.2) (Style.read?_plain hword hstop), ih hwords]

/-- Nor does the run of a style. -/
theorem scan_run (h : ∀ word ∈ e.words, IsPlain word) (hrest : Stops isLetter rest) :
    scan 0 (e.run ++ rest) = scan 0 rest := by
  obtain ⟨word, words, hwords⟩ := List.exists_cons_of_ne_nil e.words_ne_nil
  have hword : IsPlain word := h word (by simp [hwords])
  have hnone : Style.read? (numbered "s" e.number ++ (written e.words ++ rest)) = none := by
    rw [hwords, written_cons, List.cons_append, List.append_assoc]
    exact Style.read?_numbered_plain e.number hword (stops_written hrest words)
  have hnumber := not_mem_of_isLetter (isLetter_of_mem_number e.number)
  rw [numbered_append] at hnone
  rw [e.run_append, numbered_append, scan_word hnumber hnone, scan_written h hrest]

end StyleSheet

/-! ## Where the run of a style stands -/

namespace StyleEntry

open ControlWord

variable {word rest : List Char} {words : List (List Char)} {e d : StyleEntry}

/-- The run of a style starts only at its number. -/
theorem of_run_prefix_word (hword : ∀ c ∈ word, isLetter c = true) (hrest : Stops isLetter rest)
    (h : e.run <+: '\\' :: (word ++ rest)) :
    word = "s".toList ++ decimal e.number ∧ written e.words <+: rest := by
  obtain ⟨back, hback⟩ := h
  have heq : ("s".toList ++ decimal e.number) ++ (written e.words ++ back) = word ++ rest := by
    rw [run_append, numbered_append] at hback
    exact (List.cons.inj hback).2
  have hstop : Stops isLetter (written e.words ++ back) :=
    stops_written_of_ne_nil (by decide) e.words_ne_nil back
  obtain ⟨rfl, rfl⟩ := append_inj_of_stops (isLetter_of_mem_number e.number) hword hstop hrest heq
  exact ⟨rfl, List.prefix_append _ _⟩

/-- A word of which the letters start a text is a start of its first word. -/
theorem prefix_of_append_eq {front back : List Char} (hfront : ∀ c ∈ front, isLetter c = true)
    (hrest : Stops isLetter rest) (h : front ++ back = word ++ rest) : front <+: word := by
  rcases List.append_eq_append_iff.1 h with ⟨more, hword, -⟩ | ⟨more, rfl, hmore⟩
  · exact ⟨more, hword.symm⟩
  · cases more with
    | nil => exact (List.append_nil word).symm ▸ List.prefix_rfl
    | cons c more =>
      rw [hmore] at hrest
      have hc := hrest c rfl
      rw [hfront c (by simp)] at hc
      cases hc

/-- The control words of the links. -/
def linkWords (e : StyleEntry) : List (List Char) :=
  e.basedOn.elim [] (fun m => ["sbasedon".toList ++ decimal m]) ++
    ["snext".toList ++ decimal e.next]

theorem links_eq_written (e : StyleEntry) : e.links = written e.linkWords := by
  rw [links, linkWords]
  cases e.basedOn <;> simp [written, numbered]

theorem exists_stem_of_mem_linkWords (h : word ∈ e.linkWords) :
    ∃ stem ∈ linkStems, ∃ n, word = stem.toList ++ decimal n := by
  rw [linkWords, List.mem_append, List.mem_singleton] at h
  rcases h with h | rfl
  · cases hbased : e.basedOn with
    | none => simp [hbased] at h
    | some m =>
      rw [hbased] at h
      exact ⟨"sbasedon", by decide, m, List.mem_singleton.1 h⟩
  · exact ⟨"snext", by decide, e.next, rfl⟩

/-- The run of a style does not start where a link follows its number. -/
theorem not_run_prefix_body (h : ∀ word ∈ e.words, IsPlain word) (d : StyleEntry)
    (rest : List Char) : ¬ e.run <+: d.body ++ rest := by
  intro hrun
  have htail : Stops isLetter (written d.words ++ ' ' :: (d.name ++ ';' :: rest)) :=
    stops_written (stops_cons (by decide) _) _
  rw [body_append, numbered_append, links_eq_written] at hrun
  obtain ⟨-, hwords⟩ :=
    of_run_prefix_word (isLetter_of_mem_number d.number) (stops_written htail _) hrun
  obtain ⟨word, words, hword⟩ := List.exists_cons_of_ne_nil e.words_ne_nil
  obtain ⟨link, links, hlink⟩ : ∃ link links, d.linkWords = link :: links :=
    List.exists_cons_of_ne_nil (by simp [linkWords])
  have hfirst : link ∈ d.linkWords := hlink ▸ List.mem_cons_self
  obtain ⟨stem, hstem, n, rfl⟩ := exists_stem_of_mem_linkWords hfirst
  have hplain : IsPlain word := h word (by simp [hword])
  rw [hword, hlink, written_cons, written_cons, List.cons_append, List.cons_prefix_cons] at hwords
  obtain ⟨back, hback⟩ := hwords.2
  rw [List.append_assoc, List.append_assoc (stem.toList ++ decimal n)] at hback
  exact hplain.not_prefix_numbered (List.mem_cons_of_mem _ hstem) n
    (prefix_of_append_eq hplain.isWord.2 (stops_written htail _) hback)

/-! ### What is left as it is -/

variable {new : List Char}

theorem run_eq_cons (e : StyleEntry) :
    e.run = '\\' :: ("s".toList ++ decimal e.number ++ written e.words) := by
  rw [run, numbered, List.cons_append]

theorem replace_run_of_not_mem {front : List Char} (h : '\\' ∉ front) (rest : List Char) :
    replace e.run new (front ++ rest) = front ++ replace e.run new rest := by
  rw [run_eq_cons]
  exact replace_append_of_not_mem h _ _ _

theorem replace_run_word (hword : ∀ c ∈ word, isLetter c = true)
    (h : ¬ e.run <+: '\\' :: (word ++ rest)) :
    replace e.run new ('\\' :: (word ++ rest)) = '\\' :: (word ++ replace e.run new rest) := by
  rw [run_eq_cons] at h ⊢
  exact replace_cons_append (StyleSheet.not_mem_of_isLetter hword) h

/-- Control words that are not the number of the style are left as they are. -/
theorem replace_run_written (hwords : ∀ word ∈ words, ∀ c ∈ word, isLetter c = true)
    (hne : ∀ word ∈ words, word ≠ "s".toList ++ decimal e.number) (hrest : Stops isLetter rest) :
    replace e.run new (written words ++ rest) = written words ++ replace e.run new rest := by
  induction words with
  | nil => rfl
  | cons word words ih =>
    obtain ⟨hword, hwords⟩ := List.forall_mem_cons.1 hwords
    obtain ⟨hfirst, hne⟩ := List.forall_mem_cons.1 hne
    have hnot : ¬ e.run <+: '\\' :: (word ++ (written words ++ rest)) := fun hrun =>
      hfirst (of_run_prefix_word hword (stops_written hrest words) hrun).1
    rw [written_cons, List.cons_append, List.append_assoc, replace_run_word hword hnot,
      ih hwords hne, List.cons_append, List.append_assoc]

/-- So are plain ones. -/
theorem replace_run_plain (h : ∀ word ∈ words, IsPlain word) (hrest : Stops isLetter rest) :
    replace e.run new (written words ++ rest) = written words ++ replace e.run new rest := by
  refine replace_run_written (fun word hword => (h word hword).isWord.2) (fun word hword heq => ?_)
    hrest
  refine (h word hword).not_isNumbered "s" (by decide) ?_
  rw [heq]
  exact isNumbered_append_decimal "s" e.number

/-- And so are links. -/
theorem replace_run_links (hrest : Stops isLetter rest) (d : StyleEntry) :
    replace e.run new (d.links ++ rest) = d.links ++ replace e.run new rest := by
  rw [links_eq_written]
  refine replace_run_written (fun word hword => ?_) (fun word hword => ?_) hrest
  · obtain ⟨stem, hstem, n, rfl⟩ := exists_stem_of_mem_linkWords hword
    rw [List.forall_mem_append]
    exact ⟨isLetter_of_mem_stem (List.mem_cons_of_mem _ hstem), isLetter_of_mem_decimal⟩
  · obtain ⟨stem, hstem, n, rfl⟩ := exists_stem_of_mem_linkWords hword
    exact link_ne_number hstem n e.number

/-- An entry is left as it is. -/
theorem replace_run_body (he : ∀ word ∈ e.words, IsPlain word)
    (hd : ∀ word ∈ d.words, IsPlain word) (rest : List Char) :
    replace e.run new (d.body ++ rest) = d.body ++ replace e.run new rest := by
  have hname : replace e.run new (' ' :: (d.name ++ ';' :: rest)) =
      ' ' :: (d.name ++ ';' :: replace e.run new rest) := by
    have hletters : '\\' ∉ d.name := fun hc => absurd (d.isName.2 _ hc) (by decide)
    have hmem : '\\' ∉ ' ' :: (d.name ++ [';']) := by simp [hletters]
    simpa using replace_run_of_not_mem hmem rest
  have htail : Stops isLetter (' ' :: (d.name ++ ';' :: rest)) := stops_cons (by decide) _
  have hnot := not_run_prefix_body he d rest
  rw [body_append, numbered_append] at hnot
  rw [body_append, numbered_append, replace_run_word (isLetter_of_mem_number d.number) hnot,
    replace_run_links (stops_written htail d.words), replace_run_plain hd htail, hname,
    body_append, numbered_append]

/-- A table is left as it is. -/
theorem replace_run_table {entries : List StyleEntry} (he : ∀ word ∈ e.words, IsPlain word)
    (hentries : ∀ d ∈ entries, ∀ word ∈ d.words, IsPlain word) (rest : List Char) :
    replace e.run new (StyleSheet.table entries ++ rest) =
      StyleSheet.table entries ++ replace e.run new rest := by
  have hbraced : ∀ rest, replace e.run new (entries.flatMap StyleSheet.braced ++ rest) =
      entries.flatMap StyleSheet.braced ++ replace e.run new rest := by
    intro rest
    induction entries with
    | nil => rfl
    | cons d entries ih =>
      obtain ⟨hd, hentries⟩ := List.forall_mem_cons.1 hentries
      have hsplit : ∀ rest, (d :: entries).flatMap StyleSheet.braced ++ rest =
          ['\x7b'] ++ (d.body ++ (['\x7d'] ++ (entries.flatMap StyleSheet.braced ++ rest))) := by
        intro rest
        simp [StyleSheet.braced]
      rw [hsplit, hsplit, replace_run_of_not_mem (by decide), replace_run_body he hd,
        replace_run_of_not_mem (by decide), ih hentries]
  have htable : ∀ rest, StyleSheet.table entries ++ rest = ['\x7b'] ++
      (written ["stylesheet".toList] ++
        (entries.flatMap StyleSheet.braced ++ (['\x7d'] ++ rest))) := by
    intro rest
    simp [StyleSheet.table]
  have hstop : Stops isLetter (entries.flatMap StyleSheet.braced ++ (['\x7d'] ++ rest)) := by
    cases entries <;> exact stops_cons (by decide) _
  have hword : ∀ word ∈ ["stylesheet".toList], IsWord word := by decide
  have hopening : ∀ word ∈ ["stylesheet".toList], word ≠ "s".toList ++ decimal e.number :=
    List.forall_mem_singleton.2 (ne_number (c := 't') (by decide) (by decide) e.number)
  rw [htable, htable, replace_run_of_not_mem (by decide),
    replace_run_written (fun word hmem => (hword word hmem).2) hopening hstop, hbraced,
    replace_run_of_not_mem (by decide)]

end StyleEntry

/-! ## Paragraphs -/

/-- A paragraph of a document, with what stands before it. Braces and semicolons in its text do no
    harm. -/
structure Paragraph where
  lead : List Char := []
  style : StyleEntry
  further : List (List Char)
  text : List Char
  not_mem_lead : '\\' ∉ lead := by decide
  isPlain : ∀ word ∈ further, ControlWord.IsPlain word := by decide
  not_mem_text : '\\' ∉ text := by decide

namespace Paragraph

open ControlWord

variable {e : StyleEntry} {p : Paragraph} {run new rest : List Char}

/-- A paragraph as it is written with the run of some style. -/
def charsWith (run : List Char) (p : Paragraph) : List Char :=
  p.lead ++ '\x7b' :: (written ["pard".toList] ++ (run ++ (written p.further ++
    ' ' :: (p.text ++ (written ["par".toList] ++ ['\x7d'])))))

/-- A paragraph as it is written. -/
def chars (p : Paragraph) : List Char := p.charsWith p.style.run

/-- The parts of a paragraph. -/
theorem charsWith_append (run : List Char) (p : Paragraph) (rest : List Char) :
    p.charsWith run ++ rest = (p.lead ++ ['\x7b']) ++ (written ["pard".toList] ++ (run ++
      (written p.further ++ ((' ' :: p.text) ++
        (written ["par".toList] ++ (['\x7d'] ++ rest)))))) := by
  simp [charsWith]

theorem not_mem_opening (p : Paragraph) : '\\' ∉ p.lead ++ ['\x7b'] := by
  simp [p.not_mem_lead]

theorem not_mem_spaced_text (p : Paragraph) : '\\' ∉ ' ' :: p.text := by
  simp [p.not_mem_text]

theorem stops_spaced_text (p : Paragraph) (rest : List Char) :
    Stops isLetter ((' ' :: p.text) ++ rest) := stops_cons (by decide) _

theorem stops_closing (rest : List Char) : Stops isLetter (['\x7d'] ++ rest) :=
  stops_cons (by decide) _

/-- What comes before and after the run of a paragraph is left as it is. -/
theorem replace_charsWith {run' : List Char} (hstop : ∀ rest, Stops isLetter (run ++ rest))
    (hrun : ∀ rest, Stops isLetter rest →
      replace e.run new (run ++ rest) = run' ++ replace e.run new rest) (p : Paragraph)
    (rest : List Char) : replace e.run new (p.charsWith run ++ rest) =
      p.charsWith run' ++ replace e.run new rest := by
  rw [charsWith_append, charsWith_append, StyleEntry.replace_run_of_not_mem p.not_mem_opening,
    StyleEntry.replace_run_plain (by decide) (hstop _),
    hrun _ (stops_written (p.stops_spaced_text _) _),
    StyleEntry.replace_run_plain p.isPlain (p.stops_spaced_text _),
    StyleEntry.replace_run_of_not_mem p.not_mem_spaced_text,
    StyleEntry.replace_run_plain (by decide) (stops_closing rest),
    StyleEntry.replace_run_of_not_mem (by decide)]

/-- No style is found in a paragraph. -/
theorem scan_chars (h : ∀ word ∈ p.style.words, IsPlain word) (rest : List Char) :
    StyleSheet.scan 0 (p.chars ++ rest) = StyleSheet.scan 0 rest := by
  rw [chars, charsWith_append, StyleSheet.scan_append_of_not_mem p.not_mem_opening,
    StyleSheet.scan_written (by decide) (p.style.stops_run _),
    StyleSheet.scan_run h (stops_written (p.stops_spaced_text _) _),
    StyleSheet.scan_written p.isPlain (p.stops_spaced_text _),
    StyleSheet.scan_append_of_not_mem p.not_mem_spaced_text,
    StyleSheet.scan_written (by decide) (stops_closing rest),
    StyleSheet.scan_append_of_not_mem (by decide)]

/-- A paragraph of one style gets another. -/
def restyle (source target : StyleEntry) (p : Paragraph) : Paragraph :=
  if p.style = source then { p with style := target } else p

theorem restyle_restyle (source target : StyleEntry) (p : Paragraph) :
    (p.restyle source target).restyle source target = p.restyle source target := by
  by_cases h : p.style = source
  · have hrestyle : p.restyle source target = { p with style := target } := if_pos h
    rw [hrestyle, restyle]
    split_ifs <;> rfl
  · have hrestyle : p.restyle source target = p := if_neg h
    rw [hrestyle, hrestyle]

/-- The run of another style is left as it is. -/
theorem replace_other {d : StyleEntry} (hne : d.number ≠ e.number)
    (h : ∀ word ∈ d.words, IsPlain word) (hrest : Stops isLetter rest) :
    replace e.run new (d.run ++ rest) = d.run ++ replace e.run new rest := by
  have hnot : ¬ e.run <+:
      '\\' :: (("s".toList ++ decimal d.number) ++ (written d.words ++ rest)) := by
    intro hstart
    have hnumber := (StyleEntry.of_run_prefix_word (isLetter_of_mem_number d.number)
      (stops_written hrest _) hstart).1
    exact hne (decimal_injective (List.append_cancel_left hnumber))
  rw [d.run_append, numbered_append,
    StyleEntry.replace_run_word (isLetter_of_mem_number d.number) hnot,
    StyleEntry.replace_run_plain h hrest, d.run_append, numbered_append]

/-- A paragraph is rewritten just if it has the style. -/
theorem replace_chars {source target : StyleEntry} (h : ∀ word ∈ p.style.words, IsPlain word)
    (hne : p.style ≠ source → p.style.number ≠ source.number) (rest : List Char) :
    replace source.run target.run (p.chars ++ rest) =
      (p.restyle source target).chars ++ replace source.run target.run rest := by
  rw [restyle]
  split_ifs with hstyle
  · rw [chars, hstyle]
    refine replace_charsWith source.stops_run (fun rest _ => ?_) p rest
    exact replace_append_self (by simp [StyleEntry.run_eq_cons]) _ rest
  · exact replace_charsWith p.style.stops_run (fun rest => replace_other (hne hstyle) h) p rest

end Paragraph

/-! ## Documents -/

/-- A document: a table of styles, and paragraphs that have styles of it. -/
structure StyledDocument where
  styles : List StyleEntry
  paragraphs : List Paragraph
  nodup_numbers : (styles.map StyleEntry.number).Nodup
  nodup_names : (styles.map StyleEntry.name).Nodup
  isPlain : ∀ e ∈ styles, ∀ word ∈ e.words, ControlWord.IsPlain word
  mem_styles : ∀ p ∈ paragraphs, p.style ∈ styles

namespace StyledDocument

variable {d : StyledDocument} {source target : StyleEntry}

/-- A document as it is written. -/
def text (d : StyledDocument) : String :=
  .ofList (StyleSheet.table d.styles ++ d.paragraphs.flatMap Paragraph.chars)

/-- The document in which the paragraphs of one style have another. -/
def restyled (d : StyledDocument) (source : StyleEntry) {target : StyleEntry}
    (htarget : target ∈ d.styles) : StyledDocument where
  styles := d.styles
  paragraphs := d.paragraphs.map (Paragraph.restyle source target)
  nodup_numbers := d.nodup_numbers
  nodup_names := d.nodup_names
  isPlain := d.isPlain
  mem_styles := by
    rw [List.forall_mem_map]
    intro p hp
    rw [Paragraph.restyle]
    split_ifs
    · exact htarget
    · exact d.mem_styles p hp

theorem restyled_restyled (d : StyledDocument) (source : StyleEntry) (htarget : target ∈ d.styles) :
    (d.restyled source htarget).restyled source htarget = d.restyled source htarget := by
  have hparagraphs : (d.paragraphs.map (Paragraph.restyle source target)).map
      (Paragraph.restyle source target) = d.paragraphs.map (Paragraph.restyle source target) := by
    rw [List.map_map]
    exact List.map_congr_left fun p _ => p.restyle_restyle source target
  simp only [restyled, hparagraphs]

theorem isPlain_of_mem (d : StyledDocument) {p : Paragraph} (hp : p ∈ d.paragraphs) :
    ∀ word ∈ p.style.words, ControlWord.IsPlain word := d.isPlain _ (d.mem_styles p hp)

/-- **Just the styles of the table are found.** -/
theorem scan_text (d : StyledDocument) :
    StyleSheet.scan 0 d.text.toList = d.styles.map StyleEntry.style := by
  have hnone : ∀ ps : List Paragraph,
      (∀ p ∈ ps, ∀ word ∈ p.style.words, ControlWord.IsPlain word) →
        StyleSheet.scan 0 (ps.flatMap Paragraph.chars) = [] := by
    intro ps hps
    induction ps with
    | nil => rfl
    | cons p ps ih =>
      obtain ⟨hp, hps⟩ := List.forall_mem_cons.1 hps
      rw [List.flatMap_cons, Paragraph.scan_chars hp, ih hps]
  rw [text, String.toList_ofList, StyleSheet.scan_table, hnone _ fun p => d.isPlain_of_mem,
    List.append_nil]

/-- **The run of a style is replaced in the paragraphs that have it**, and nowhere else. -/
theorem replace_text (hsource : source ∈ d.styles) (htarget : target ∈ d.styles) :
    String.ofList (replace source.run target.run d.text.toList) =
      (d.restyled source htarget).text := by
  have hparagraphs : ∀ ps : List Paragraph, (∀ p ∈ ps, p ∈ d.paragraphs) →
      replace source.run target.run (ps.flatMap Paragraph.chars) =
        (ps.map (Paragraph.restyle source target)).flatMap Paragraph.chars := by
    intro ps hps
    induction ps with
    | nil => rfl
    | cons p ps ih =>
      obtain ⟨hp, hps⟩ := List.forall_mem_cons.1 hps
      -- styles with one number are the same
      have hne : p.style ≠ source → p.style.number ≠ source.number := fun hne heq =>
        hne (List.inj_on_of_nodup_map d.nodup_numbers (d.mem_styles p hp) hsource heq)
      rw [List.flatMap_cons, Paragraph.replace_chars (d.isPlain_of_mem hp) hne, ih hps]
      rfl
  rw [text, String.toList_ofList, StyleEntry.replace_run_table (d.isPlain _ hsource) d.isPlain,
    hparagraphs _ fun _ => id]
  rfl

/-- The document has a style of some name. -/
def HasStyle (d : StyledDocument) (name : String) : Prop :=
  ∃ e ∈ d.styles, String.ofList e.name = name

theorem named?_iff (d : StyledDocument) {name : String} {run : List Char} :
    StyleSheet.named? (d.styles.map StyleEntry.style) name = some run ↔
      ∃ e ∈ d.styles, String.ofList e.name = name ∧ run = e.run := by
  rw [StyleSheet.named?_eq_some_iff]
  constructor
  · rintro ⟨e, he, hrun⟩
    exact ⟨e, he.mem, he.prop, hrun⟩
  · rintro ⟨e, he, hname, hrun⟩
    obtain ⟨last, hlast⟩ :=
      StyleEntry.exists_isLast (p := fun d => String.ofList d.name = name) he hname
    obtain rfl : last = e := List.inj_on_of_nodup_map d.nodup_names hlast.mem he
      (String.ofList_injective (hlast.prop.trans hname.symm))
    exact ⟨last, hlast, hrun⟩

/-- What a swap makes of a document. -/
theorem swap_eq_ok_iff (d : StyledDocument) {source target document : String} :
    StyleSheet.swap d.text source target = .ok document ↔
      ∃ old ∈ d.styles, ∃ (new : StyleEntry) (hnew : new ∈ d.styles),
        String.ofList old.name = source ∧ String.ofList new.name = target ∧
          document = (d.restyled old hnew).text := by
  rw [StyleSheet.swap]
  constructor
  · intro h
    cases hfound : StyleSheet.styles d.text with
    | error e =>
      rw [hfound] at h
      cases h
    | ok found =>
      obtain ⟨rfl, -⟩ := StyleSheet.styles_eq_ok_iff.1 hfound
      rw [hfound, d.scan_text] at h
      simp only [bind, Except.bind] at h
      split at h
      · cases h
      · cases h
      · next hnamed hnamed' =>
        obtain ⟨old, hold, hsource, rfl⟩ := d.named?_iff.1 hnamed
        obtain ⟨new, hnew, htarget, rfl⟩ := d.named?_iff.1 hnamed'
        rw [replace_text hold hnew] at h
        exact ⟨old, hold, new, hnew, hsource, htarget, (Except.ok.inj h).symm⟩
  · rintro ⟨old, hold, new, hnew, hsource, htarget, rfl⟩
    have hne : d.styles.map StyleEntry.style ≠ [] := by
      simpa using List.ne_nil_of_mem hold
    rw [StyleSheet.styles_eq_ok_iff.2 ⟨d.scan_text, hne⟩]
    have hold' := d.named?_iff.2 ⟨old, hold, hsource, rfl⟩
    have hnew' := d.named?_iff.2 ⟨new, hnew, htarget, rfl⟩
    simp only [bind, Except.bind, hold', hnew', replace_text hold hnew]

/-- **A swap rewrites just the paragraphs of one style.** It succeeds just if the table has both
    styles, and done again it changes nothing. -/
theorem swap_text (d : StyledDocument) (source target : String) :
    ((∃ document, StyleSheet.swap d.text source target = .ok document) ↔
      d.HasStyle source ∧ d.HasStyle target) ∧
    (∀ old ∈ d.styles, ∀ (new : StyleEntry) (hnew : new ∈ d.styles),
      String.ofList old.name = source → String.ofList new.name = target →
        StyleSheet.swap d.text source target = .ok (d.restyled old hnew).text) ∧
    ((StyleSheet.swap d.text source target).bind fun document =>
      StyleSheet.swap document source target) = StyleSheet.swap d.text source target := by
  refine ⟨⟨?_, ?_⟩, fun old hold new hnew hsource htarget => ?_, ?_⟩
  · rintro ⟨document, hswap⟩
    obtain ⟨old, hold, new, hnew, hsource, htarget, -⟩ := d.swap_eq_ok_iff.1 hswap
    exact ⟨⟨old, hold, hsource⟩, new, hnew, htarget⟩
  · rintro ⟨⟨old, hold, hsource⟩, new, hnew, htarget⟩
    exact ⟨_, d.swap_eq_ok_iff.2 ⟨old, hold, new, hnew, hsource, htarget, rfl⟩⟩
  · exact d.swap_eq_ok_iff.2 ⟨old, hold, new, hnew, hsource, htarget, rfl⟩
  · cases hswap : StyleSheet.swap d.text source target with
    | error e => rfl
    | ok document =>
      obtain ⟨old, hold, new, hnew, hsource, htarget, rfl⟩ := d.swap_eq_ok_iff.1 hswap
      refine (d.restyled old hnew).swap_eq_ok_iff.2
        ⟨old, hold, new, hnew, hsource, htarget, ?_⟩
      rw [restyled_restyled]

/-- The style of a converted text. The run of `proseStyle` would be the start of its run but for the
    number. -/
def plainStyle : StyleEntry where
  number := 20
  basedOn := some 2
  next := 20
  words := ["f5".toList, "sl240".toList]
  name := "Preformatted Text".toList

def proseStyle : StyleEntry where
  number := 2
  basedOn := none
  next := 2
  words := ["f5".toList]
  name := "Normal".toList

/-- A converted text, and a paragraph that has the other style already. -/
def converted : StyledDocument where
  styles := [proseStyle, plainStyle]
  paragraphs :=
    [{ style := plainStyle, further := ["sb120".toList], text := "Once; upon a time".toList,
       lead := ['\n'] },
     { style := proseStyle, further := ["sl240".toList], text := "f5".toList }]
  nodup_numbers := by decide
  nodup_names := by decide
  isPlain := by decide
  mem_styles := by decide

theorem swap_text_converted :
    StyleSheet.swap converted.text "Preformatted Text" "Normal" =
      .ok (converted.restyled plainStyle (List.mem_cons_self (a := proseStyle))).text :=
  (swap_text converted "Preformatted Text" "Normal").2.1 plainStyle (by decide) proseStyle
    List.mem_cons_self (by decide) (by decide)

example : (converted.restyled plainStyle (List.mem_cons_self (a := proseStyle))).text =
    "\x7b\\stylesheet\x7b\\s2\\snext2\\f5 Normal;\x7d\x7b\\s20\\sbasedon2\\snext20\\f5\\sl240 " ++
    "Preformatted Text;\x7d\x7d\n\x7b\\pard\\s2\\f5\\sb120 Once; upon a time\\par\x7d" ++
    "\x7b\\pard\\s2\\f5\\sl240 f5\\par\x7d" := by cbv

end StyledDocument

end Crosspost
