/-
  Control words where a swap of styles finds the run of a style.

  * `Style.IsRead`: what is read as a style has a number, and control words after it
    (`Style.isRead_of_read?`);
  * `Style.goesOn s rest`: what the last control word of the run of `s` goes on with, where `rest`
    follows the run; `Style.letters_readAll_run`: the control words that stand there are those of
    the style, the last one with more characters;
  * `StyleSheet.goesOn_of_swap_eq_ok`: **a style's run is replaced wherever it stands as text**,
    so that it ends inside another control word just where one goes on.
-/
import Mathlib.Data.List.ModifyLast
import Crosspost.Proofs.Results
import Crosspost.Proofs.Story.Restyling

namespace Crosspost

open Chars

/-! ## Control words read -/

namespace ControlWord

variable {cs rest : List Char} {w : ControlWord} {ws : List ControlWord}

/-- What a control word goes on with, where a text follows what is written of it. -/
def goesOn (w : ControlWord) (rest : List Char) : List Char :=
  if w.spaced then [] else rest.takeWhile isLetter

theorem isWord_of_read? (h : read? cs = some (w, rest)) : IsWord w.letters := by
  have hletters : ∀ (cs : List Char), ∀ c ∈ cs.takeWhile isLetter, isLetter c = true :=
    fun _ _ => List.mem_takeWhile_imp
  rw [read?.eq_def] at h
  split at h
  · next cs =>
    split at h
    · cases h
    · next hne =>
      cases h
      exact ⟨hne, hletters cs⟩
    · next hne _ =>
      cases h
      exact ⟨hne, hletters cs⟩
  · cases h

theorem isWord_of_readAll {limit : Nat} (hw : w ∈ (readAll limit cs).1) : IsWord w.letters := by
  induction limit generalizing cs with
  | zero => simp [readAll] at hw
  | succ limit ih =>
    rw [readAll] at hw
    split at hw
    · simp at hw
    · next word rest hread =>
      obtain rfl | hw := List.mem_cons.1 hw
      · exact isWord_of_read? hread
      · exact ih hw

/-- A control word is read with what it goes on with. -/
theorem read?_chars (h : IsWord w.letters) (rest : List Char) :
    ∃ spaced more, read? (w.chars ++ rest) = some (⟨w.letters ++ w.goesOn rest, spaced⟩, more) := by
  obtain ⟨letters, spaced⟩ := w
  cases spaced with
  | true => exact ⟨true, rest, by simpa [chars, goesOn] using read?_spaced h rest⟩
  | false =>
    have hchars : (⟨letters, false⟩ : ControlWord).chars ++ rest = '\\' :: (letters ++ rest) := by
      simp [chars]
    have htake : (letters ++ rest).takeWhile isLetter = letters ++ rest.takeWhile isLetter :=
      List.takeWhile_append_of_pos h.2
    rw [hchars, read?, htake, goesOn, if_neg Bool.false_ne_true]
    split
    · next hnil => exact absurd (List.append_eq_nil_iff.1 hnil).1 h.1
    · exact ⟨true, _, rfl⟩
    · exact ⟨false, _, rfl⟩

/-- Before another one, a control word is read as it is. -/
theorem read?_chars_cons (h : IsWord w.letters) (rest : List Char) :
    read? (w.chars ++ '\\' :: rest) = some (w, '\\' :: rest) := by
  obtain ⟨letters, spaced⟩ := w
  cases spaced with
  | true => simpa [chars] using read?_spaced h ('\\' :: rest)
  | false => simpa [chars] using read?_unspaced h rest

/-- Control words are read as they are, the last one with what it goes on with. -/
theorem letters_readAll (hws : ∀ v ∈ ws, IsWord v.letters) (hw : IsWord w.letters)
    (rest : List Char) :
    (readAll (ws ++ [w]).length ((ws ++ [w]).flatMap chars ++ rest)).1.map (·.letters) =
      ws.map (·.letters) ++ [w.letters ++ w.goesOn rest] := by
  induction ws with
  | nil =>
    obtain ⟨spaced, more, hread⟩ := read?_chars hw rest
    have hone : ([] ++ [w]).flatMap chars ++ rest = w.chars ++ rest := by simp
    rw [hone, List.nil_append, List.length_singleton, readAll, hread]
    rfl
  | cons v ws ih =>
    obtain ⟨hv, hws⟩ := List.forall_mem_cons.1 hws
    obtain ⟨more, hmore⟩ : ∃ more, (ws ++ [w]).flatMap chars ++ rest = '\\' :: more := by
      cases ws <;> exact ⟨_, rfl⟩
    rw [List.cons_append, List.flatMap_cons, List.append_assoc, List.length_cons, readAll]
    rw [hmore, read?_chars_cons hv, ← hmore]
    rw [List.map_cons, ih hws]
    rfl

end ControlWord

/-! ## Styles read -/

namespace Style

open ControlWord

variable {s : Style} {cs rest : List Char}

/-- What is read as a style. -/
structure IsRead (s : Style) : Prop where
  isDigit : ∀ c ∈ s.digits, c.isDigit = true
  words_ne_nil : s.words ≠ []
  isWord : ∀ w ∈ s.words, IsWord w.letters

theorem of_readBody? {words : List ControlWord} {name : List Char}
    (h : readBody? cs = some (words, name, rest)) :
    words ≠ [] ∧ ∀ w ∈ words, IsWord w.letters := by
  have hall : ∀ w ∈ (readAll cs.length cs).1, IsWord w.letters := fun w => isWord_of_readAll
  unfold readBody? at h
  generalize readAll cs.length cs = read at h hall
  obtain ⟨found, more⟩ := read
  dsimp only at h hall
  cases hlast : found.getLast? with
  | none => simp [hlast] at h
  | some last =>
    obtain ⟨front, rfl⟩ := List.getLast?_eq_some_iff.1 hlast
    simp only [hlast, List.dropLast_concat] at h
    split at h
    · obtain ⟨_, -, heq⟩ := Option.map_eq_some_iff.1 h
      cases heq
      exact ⟨by simp, hall⟩
    · split_ifs at h
      obtain ⟨_, -, heq⟩ := Option.map_eq_some_iff.1 h
      cases heq
      -- the last control word has given its space to the name
      refine ⟨by simp, fun w hw => ?_⟩
      obtain hw | hw := List.mem_append.1 hw
      · exact hall w (List.mem_append_left _ hw)
      · rw [List.mem_singleton.1 hw]
        exact hall last (by simp)

theorem isRead_of_read? (h : read? cs = some (s, rest)) : s.IsRead := by
  rw [read?_eq] at h
  obtain ⟨⟨digits, more⟩, hnumber, h⟩ := Option.bind_eq_some_iff.1 h
  obtain ⟨_, -, h⟩ := Option.bind_eq_some_iff.1 h
  obtain ⟨⟨words, name, _⟩, hbody, heq⟩ := Option.map_eq_some_iff.1 h
  cases heq
  obtain ⟨hne, hwords⟩ := of_readBody? hbody
  exact ⟨(of_readNumbered? hnumber).2.2, hne, hwords⟩

/-- The control words of the run of a style. -/
def controlWords (s : Style) : List ControlWord := ⟨'s' :: s.digits, false⟩ :: s.words

/-- What the last control word of the run of a style goes on with, where a text follows the run. -/
def goesOn (s : Style) (rest : List Char) : List Char := s.words.getLast?.elim [] (·.goesOn rest)

theorem run_eq (s : Style) : s.run = s.controlWords.flatMap chars := by
  simp [run, controlWords, chars]

/-- Where the run of a style stands, so do its control words, the last one with what it goes on
    with. -/
theorem letters_readAll_run (h : s.IsRead) (rest : List Char) :
    (readAll s.controlWords.length (s.run ++ rest)).1.map (·.letters) =
      (s.controlWords.map (·.letters)).modifyLast (· ++ s.goesOn rest) := by
  obtain ⟨front, last, hwords⟩ := (List.eq_nil_or_concat s.words).resolve_left h.words_ne_nil
  rw [List.concat_eq_append] at hwords
  have hnumber : IsWord ('s' :: s.digits) := by
    refine ⟨List.cons_ne_nil _ _, List.forall_mem_cons.2 ⟨by decide, fun c hc => ?_⟩⟩
    exact isLetter_of_isDigit (h.isDigit c hc)
  have hfront : ∀ v ∈ ⟨'s' :: s.digits, false⟩ :: front, IsWord v.letters :=
    List.forall_mem_cons.2 ⟨hnumber, fun v hv => h.isWord v (by simp [hwords, hv])⟩
  have hlast : IsWord last.letters := h.isWord last (by simp [hwords])
  have hcontrol : s.controlWords = (⟨'s' :: s.digits, false⟩ :: front) ++ [last] := by
    rw [controlWords, hwords]
    rfl
  have hgoes : s.goesOn rest = last.goesOn rest := by simp [goesOn, hwords]
  rw [run_eq, hcontrol, letters_readAll hfront hlast, List.map_append, List.map_singleton,
    List.modifyLast_concat, hgoes]

/-- The last control word goes on with the letters and digits that follow the run, unless a space
    ends it. -/
theorem goesOn_eq_nil_iff (h : s.IsRead) : s.goesOn rest = [] ↔
    (∃ w ∈ s.words.getLast?, w.spaced = true) ∨ Stops isLetter rest := by
  obtain ⟨front, last, hwords⟩ := (List.eq_nil_or_concat s.words).resolve_left h.words_ne_nil
  have hgoes : s.goesOn rest = last.goesOn rest := by simp [goesOn, hwords]
  have hspaced : (∃ w ∈ s.words.getLast?, w.spaced = true) ↔ last.spaced = true := by
    simp [hwords]
  rw [hgoes, hspaced, ControlWord.goesOn]
  split_ifs with hlast
  · simp [hlast]
  · simp only [hlast, Bool.false_eq_true, false_or]
    exact ⟨fun hnil c hc => by cases rest <;> simp_all, Stops.takeWhile_eq_nil⟩

end Style

/-! ## Swaps -/

namespace StyleSheet

open ControlWord

variable {document source target result : String} {s : Style}

theorem isRead_of_mem_scan {skip : Nat} {cs : List Char} (h : s ∈ scan skip cs) : s.IsRead := by
  induction cs generalizing skip with
  | nil => simp [scan] at h
  | cons c cs ih =>
    cases skip with
    | succ skip => exact ih h
    | zero =>
      rw [scan] at h
      split at h
      · next style rest hread =>
        obtain rfl | h := List.mem_cons.1 h
        · exact Style.isRead_of_read? hread
        · exact ih h
      · exact ih h

/-- The last style of a document with a name. -/
def last? (document name : String) : Option Style :=
  (scan 0 document.toList).reverse.find? (·.name == name.toList)

theorem isRead_of_last? {name : String} (h : last? document name = some s) : s.IsRead :=
  isRead_of_mem_scan (List.mem_reverse.1 (List.mem_of_find?_eq_some h))

/-- A swap puts the run of one style in the place of that of another, both of them the last ones
    with their names. -/
theorem of_swap_eq_ok (h : swap document source target = .ok result) :
    ∃ old new, last? document source = some old ∧ last? document target = some new ∧
      result.toList = replace old.run new.run document.toList := by
  obtain ⟨found, hfound, h⟩ := bind_eq_ok.1 h
  obtain ⟨rfl, -⟩ := styles_eq_ok_iff.1 hfound
  have hnamed (name : String) :
      named? (scan 0 document.toList) name = (last? document name).map Style.run := rfl
  simp only [hnamed] at h
  cases hold : last? document source with
  | none =>
    rw [hold] at h
    cases h
  | some old =>
    cases hnew : last? document target with
    | none =>
      rw [hold, hnew] at h
      cases h
    | some new =>
      rw [hold, hnew] at h
      cases h
      exact ⟨old, new, rfl, rfl, String.toList_ofList⟩

/-- **A swap replaces the run of a style wherever it stands as text.** There stand the control
    words of the style, but the last one may go on; it does just where a letter or a digit follows
    and no space ends the run. -/
theorem goesOn_of_swap_eq_ok (h : swap document source target = .ok result) :
    ∃ old new rests, last? document source = some old ∧ last? document target = some new ∧
      Replaces old.run new.run document.toList result.toList rests ∧
      ∀ rest ∈ rests,
        (readAll old.controlWords.length (old.run ++ rest)).1.map (·.letters) =
            (old.controlWords.map (·.letters)).modifyLast (· ++ old.goesOn rest) ∧
          (old.goesOn rest = [] ↔
            (∃ w ∈ old.words.getLast?, w.spaced = true) ∨ Stops isLetter rest) := by
  obtain ⟨old, new, hold, hnew, hresult⟩ := of_swap_eq_ok h
  have hread := isRead_of_last? hold
  have hne : old.run ≠ [] := List.cons_ne_nil _ _
  obtain ⟨rests, hrests⟩ := exists_replaces hne new.run document.toList
  rw [← hresult] at hrests
  exact ⟨old, new, rests, hold, hnew, hrests, fun rest _ =>
    ⟨Style.letters_readAll_run hread rest, Style.goesOn_eq_nil_iff hread⟩⟩

/-- A table of two styles, before a paragraph in a font size that starts with the digits of
    another. -/
def resized : String := "\x7b\\stylesheet\x7b\\s0\\snext0\\fs24 Normal;\x7d" ++
  "\x7b\\s20\\snext20\\fs20 Preformatted Text;\x7d\x7d\x7b\\pard\\s20\\fs200 Title\\par\x7d"

/-- The paragraph with the size of the other style before the digit that was left. -/
def resizedSwapped : String := "\x7b\\stylesheet\x7b\\s0\\snext0\\fs24 Normal;\x7d" ++
  "\x7b\\s20\\snext20\\fs20 Preformatted Text;\x7d\x7d\x7b\\pard\\s0\\fs240 Title\\par\x7d"

theorem swap_resized : swap resized "Preformatted Text" "Normal" = .ok resizedSwapped := by
  decide +kernel

theorem goesOn_of_swap_eq_ok_resized :
    swap resized "Preformatted Text" "Normal" = .ok resizedSwapped ∧
      ∃ old new rests, last? resized "Preformatted Text" = some old ∧
        last? resized "Normal" = some new ∧
        Replaces old.run new.run resized.toList resizedSwapped.toList rests ∧
        ∀ rest ∈ rests,
          (readAll old.controlWords.length (old.run ++ rest)).1.map (·.letters) =
              (old.controlWords.map (·.letters)).modifyLast (· ++ old.goesOn rest) ∧
            (old.goesOn rest = [] ↔
              (∃ w ∈ old.words.getLast?, w.spaced = true) ∨ Stops isLetter rest) :=
  ⟨swap_resized, goesOn_of_swap_eq_ok swap_resized⟩

/-- The run of a style is also replaced where its last control word goes on. -/
theorem not_whole_of_swap_resized :
    ¬ ∀ (document source target result : String) (old new : Style) (rests : List (List Char)),
      swap document source target = .ok result → last? document source = some old →
        last? document target = some new →
          Replaces old.run new.run document.toList result.toList rests →
            ∀ rest ∈ rests, old.goesOn rest = [] := by
  intro h
  let old : Style := ⟨"20".toList, [⟨"fs20".toList, false⟩], "Preformatted Text".toList⟩
  let new : Style := ⟨"0".toList, [⟨"fs24".toList, false⟩], "Normal".toList⟩
  let front := resized.toList.take (resized.toList.length - "\\s20\\fs200 Title\\par\x7d".length)
  have hfront : ¬ old.run <:+: front ++ old.run.dropLast := by decide +kernel
  have hrest : ¬ old.run <:+: "0 Title\\par\x7d".toList := by decide +kernel
  have hdocument : resized.toList = front ++ (old.run ++ "0 Title\\par\x7d".toList) := by
    decide +kernel
  have hresult : resizedSwapped.toList = front ++ (new.run ++ "0 Title\\par\x7d".toList) := by
    decide +kernel
  have hreplaces : Replaces old.run new.run resized.toList resizedSwapped.toList
      ["0 Title\\par\x7d".toList] := by
    rw [hdocument, hresult]
    exact .found hfront (.none hrest)
  have hgoes : old.goesOn "0 Title\\par\x7d".toList ≠ [] := by decide +kernel
  exact hgoes (h resized _ _ _ old new _ swap_resized (by decide +kernel) (by decide +kernel)
    hreplaces _ (List.mem_singleton_self _))

end StyleSheet

end Crosspost
