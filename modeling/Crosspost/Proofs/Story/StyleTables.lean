/-
  Tables of styles.

  A table opens with its own control word; its entries follow, each in braces: the number of a
  style, the numbers of the one that it is based on and of the one that comes next, its control
  words, and its name.

  * `StyleEntry` is an entry, and `StyleEntry.run` the run of its style; `StyleSheet.table` is a
    table as it is written;
  * `Style.read?_body`, `StyleSheet.scan_table`: **each entry is found where it is written, and
    nothing else is**;
  * `StyleEntry.IsLast`: the last entry with a property, which is the one that counts for its name
    and for its number (`StyleSheet.named?_eq_some_iff`, `StyleSheet.numbered?_eq_some_iff`);
  * `StyleSheet.styles_table`: **a table reads back.**
-/
import Mathlib.Data.List.Basic
import Crosspost.Proofs.Number.Decimals
import Crosspost.Proofs.Text.Runs
import Crosspost.Story.StyleSheet

namespace Crosspost

open Chars

/-! ## Control words -/

namespace ControlWord

variable {word rest : List Char} {words : List (List Char)}

/-- One or more characters that may stand in a control word. -/
def IsWord (word : List Char) : Prop := word ≠ [] ∧ ∀ c ∈ word, isLetter c = true

instance (word : List Char) : Decidable (IsWord word) :=
  decidable_of_iff (word ≠ [] ∧ word.all isLetter = true)
    (and_congr_right fun _ => List.all_eq_true)

/-- Control words as they are written, with no space between them. -/
def written (words : List (List Char)) : List Char := words.flatMap ('\\' :: ·)

/-- A control word that ends in a number, as it is written. -/
def numbered (word : String) (n : Nat) : List Char := '\\' :: (word.toList ++ decimal n)

theorem written_cons (word : List Char) (words : List (List Char)) :
    written (word :: words) = '\\' :: (word ++ written words) := rfl

theorem isLetter_of_isDigit {c : Char} (h : c.isDigit = true) : isLetter c = true := by
  simp [isLetter, h]

theorem numbered_append (word : String) (n : Nat) (rest : List Char) :
    numbered word n ++ rest = '\\' :: ((word.toList ++ decimal n) ++ rest) := rfl

/-- One or more control words start with a backslash. -/
theorem stops_written_of_ne_nil {p : Char → Bool} (hp : p '\\' = false) (hne : words ≠ [])
    (rest : List Char) : Stops p (written words ++ rest) := by
  obtain ⟨word, words, rfl⟩ := List.exists_cons_of_ne_nil hne
  exact stops_cons hp _

/-- What follows a control word does not start with a letter of it. -/
theorem stops_written (hrest : Stops isLetter rest) (words : List (List Char)) :
    Stops isLetter (written words ++ rest) := by
  cases words with
  | nil => exact hrest
  | cons word words => exact stops_cons (by decide) _

theorem read?_eq_none (h : rest.head? ≠ some '\\') : read? rest = none := by
  cases rest with
  | nil => rfl
  | cons c rest =>
    have hc : c ≠ '\\' := by simpa using h
    rw [read?.eq_def]
    split
    · next heq => exact absurd (List.cons.inj heq).1 hc
    · rfl

theorem read?_spaced (h : IsWord word) (rest : List Char) :
    read? ('\\' :: (word ++ ' ' :: rest)) = some (⟨word, true⟩, rest) := by
  have hstop : Stops isLetter (' ' :: rest) := stops_cons (by decide) rest
  obtain ⟨c, cs, rfl⟩ := List.exists_cons_of_ne_nil h.1
  rw [read?, hstop.takeWhile_append h.2, hstop.dropWhile_append h.2]
  rfl

theorem read?_unspaced (h : IsWord word) (rest : List Char) :
    read? ('\\' :: (word ++ '\\' :: rest)) = some (⟨word, false⟩, '\\' :: rest) := by
  have hstop : Stops isLetter ('\\' :: rest) := stops_cons (by decide) rest
  obtain ⟨c, cs, rfl⟩ := List.exists_cons_of_ne_nil h.1
  rw [read?, hstop.takeWhile_append h.2, hstop.dropWhile_append h.2]
  rfl

/-- Control words are read as they are written; the last one takes the space after it. -/
theorem readAll_written {last : List Char} (hwords : ∀ word ∈ words, IsWord word)
    (hlast : IsWord last) (hrest : rest.head? ≠ some '\\') {limit : Nat}
    (hlimit : words.length + 1 < limit) :
    readAll limit (written (words ++ [last]) ++ ' ' :: rest) =
      (words.map (⟨·, false⟩) ++ [⟨last, true⟩], rest) := by
  induction words generalizing limit with
  | nil =>
    obtain ⟨limit, rfl⟩ : ∃ k, limit = k + 2 := ⟨limit - 2, by simp at hlimit; omega⟩
    have hone : written ([] ++ [last]) ++ ' ' :: rest = '\\' :: (last ++ ' ' :: rest) := by
      simp [written]
    simp only [hone, readAll, read?_spaced hlast, read?_eq_none hrest]
    rfl
  | cons word words ih =>
    obtain ⟨hword, hwords⟩ := List.forall_mem_cons.1 hwords
    obtain ⟨limit, rfl⟩ : ∃ k, limit = k + 1 := ⟨limit - 1, by omega⟩
    obtain ⟨next, more, hnext⟩ : ∃ next more, words ++ [last] = next :: more :=
      List.exists_cons_of_ne_nil (by simp)
    have hread : read? ('\\' :: (word ++ (written (words ++ [last]) ++ ' ' :: rest))) =
        some (⟨word, false⟩, written (words ++ [last]) ++ ' ' :: rest) := by
      rw [hnext]
      exact read?_unspaced hword _
    rw [List.cons_append, written_cons, List.cons_append, List.append_assoc, readAll, hread]
    dsimp only
    rw [ih hwords (by simpa using hlimit)]
    rfl

theorem length_le_length_written (words : List (List Char)) :
    words.length ≤ (written words).length := by
  induction words with
  | nil => exact Nat.le_refl 0
  | cons word words ih =>
    rw [written_cons, List.length_cons, List.length_cons, List.length_append]
    omega

end ControlWord

/-! ## Entries -/

namespace Style

variable {name rest : List Char}

/-- An upper-case letter, and then letters and spaces. -/
def IsName (name : List Char) : Prop :=
  (∃ c ∈ name.head?, c.isUpper = true) ∧ ∀ c ∈ name, isNameChar c = true

instance (name : List Char) : Decidable (IsName name) :=
  decidable_of_iff (name.head?.any Char.isUpper = true ∧ name.all isNameChar = true)
    (and_congr (Option.any_eq_true _ _) List.all_eq_true)

theorem IsName.head?_ne (h : IsName name) {c : Char} (hc : c.isUpper = false) (rest : List Char) :
    (name ++ rest).head? ≠ some c := by
  obtain ⟨d, hd, hupper⟩ := h.1
  obtain ⟨cs, rfl⟩ := List.head?_eq_some_iff.1 hd
  rintro heq
  cases heq
  rw [hc] at hupper
  cases hupper

end Style

/-- An entry of a table of styles. -/
structure StyleEntry where
  number : Nat
  basedOn : Option Nat
  next : Nat
  words : List (List Char)
  name : List Char
  words_ne_nil : words ≠ [] := by decide
  isWord : ∀ word ∈ words, ControlWord.IsWord word := by decide
  isName : Style.IsName name := by decide
  deriving DecidableEq

namespace StyleEntry

open ControlWord

/-- The number and the control words of a style. -/
def run (e : StyleEntry) : List Char := numbered "s" e.number ++ written e.words

theorem run_append (e : StyleEntry) (rest : List Char) :
    e.run ++ rest = numbered "s" e.number ++ (written e.words ++ rest) := List.append_assoc _ _ _

theorem stops_run (e : StyleEntry) (rest : List Char) : Stops isLetter (e.run ++ rest) :=
  stops_cons (by decide) _

/-- What links a style to others. -/
def links (e : StyleEntry) : List Char :=
  e.basedOn.elim [] (numbered "sbasedon") ++ numbered "snext" e.next

/-- An entry as it is written, between braces. -/
def body (e : StyleEntry) : List Char :=
  numbered "s" e.number ++ (e.links ++ (written e.words ++ ' ' :: (e.name ++ [';'])))

/-- The parts of an entry. -/
theorem body_append (e : StyleEntry) (rest : List Char) :
    e.body ++ rest = numbered "s" e.number ++
      (e.links ++ (written e.words ++ (' ' :: (e.name ++ ';' :: rest)))) := by
  simp [body]

/-- What is read of an entry. -/
def style (e : StyleEntry) : Style := ⟨decimal e.number, e.words.map (⟨·, false⟩), e.name⟩

end StyleEntry

namespace Style

open ControlWord

variable {name rest : List Char} {words : List (List Char)}

/-- A number is read up to what is no digit. -/
theorem readNumbered?_numbered (word : String) (n : Nat) (hrest : Stops Char.isDigit rest) :
    readNumbered? word (numbered word n ++ rest) = some (decimal n, rest) := by
  have hdigits : ∀ c ∈ decimal n, c.isDigit = true := fun c => isDigit_of_mem_decimal
  have hafter : after? ('\\' :: word.toList) (numbered word n ++ rest) =
      some (decimal n ++ rest) := by
    rw [after?_eq_some_iff, numbered]
    simp
  obtain ⟨c, cs, hcs⟩ := List.exists_cons_of_ne_nil (decimal_ne_nil n)
  rw [readNumbered?, hafter]
  dsimp only
  rw [hrest.takeWhile_append hdigits, hrest.dropWhile_append hdigits, hcs]

/-- A name is read up to the semicolon. -/
theorem readName?_append (h : IsName name) (rest : List Char) :
    readName? (name ++ ';' :: rest) = some (name, rest) := by
  have hstop : Stops isNameChar (';' :: rest) := stops_cons (by decide) rest
  obtain ⟨⟨c, hc, hupper⟩, hname⟩ := h
  obtain ⟨cs, rfl⟩ := List.head?_eq_some_iff.1 hc
  have hdrop : (c :: (cs ++ ';' :: rest)).dropWhile isNameChar = ';' :: rest :=
    hstop.dropWhile_append hname
  have htake : (c :: (cs ++ ';' :: rest)).takeWhile isNameChar = c :: cs :=
    hstop.takeWhile_append hname
  rw [List.cons_append, readName?, if_pos hupper, hdrop, htake]
  rfl

/-- The last control word gives the space after it back to the name. -/
theorem readBody?_of_readAll {cs last : List Char} {front : List ControlWord}
    (hread : readAll cs.length cs = (front ++ [⟨last, true⟩], rest))
    (hrest : rest.head? ≠ some ' ') : readBody? cs =
      (readName? rest).map fun found => (front ++ [⟨last, false⟩], found.1, found.2) := by
  rw [readBody?, hread]
  simp only [List.getLast?_concat, List.dropLast_concat]
  split
  · exact absurd rfl hrest
  · rfl

theorem readBody?_written (hne : words ≠ []) (hwords : ∀ word ∈ words, IsWord word)
    (hname : IsName name) (rest : List Char) :
    readBody? (written words ++ ' ' :: (name ++ ';' :: rest)) =
      some (words.map (⟨·, false⟩), name, rest) := by
  obtain ⟨front, last, rfl⟩ := (List.eq_nil_or_concat words).resolve_left hne
  rw [List.concat_eq_append] at hwords ⊢
  have hlimit : front.length + 1 <
      (written (front ++ [last]) ++ ' ' :: (name ++ ';' :: rest)).length := by
    have hlength := length_le_length_written (front ++ [last])
    simp only [List.length_append, List.length_cons, List.length_nil] at hlength ⊢
    omega
  have hread := readAll_written (fun word hword => hwords word (List.mem_append_left _ hword))
    (hwords last (by simp)) (hname.head?_ne (by decide) (';' :: rest)) hlimit
  rw [readBody?_of_readAll hread (hname.head?_ne (by decide) _), readName?_append hname rest,
    List.map_append]
  rfl

/-- What follows the number of the style that another is based on, if there is one. -/
def skipBased (cs : List Char) : List Char :=
  match readNumbered? "sbasedon" cs with
  | some (_, rest) => rest
  | none => cs

/-- The stages in which an entry is read. -/
theorem read?_eq (cs : List Char) : read? cs =
    (readNumbered? "s" cs).bind fun number =>
      (readNumbered? "snext" (skipBased number.2)).bind fun next =>
        (readBody? next.2).map fun found => (⟨number.1, found.1, found.2.1⟩, found.2.2) := by
  simp only [Option.map_eq_bind]
  rfl

theorem readNumbered?_links (e : StyleEntry) (hrest : Stops Char.isDigit rest) :
    readNumbered? "snext" (skipBased (e.links ++ rest)) = some (decimal e.next, rest) := by
  have hnext := readNumbered?_numbered "snext" e.next hrest
  cases hbased : e.basedOn with
  | none =>
    have hlinks : e.links ++ rest = numbered "snext" e.next ++ rest := by
      simp [StyleEntry.links, hbased]
    have hnone : readNumbered? "sbasedon" (numbered "snext" e.next ++ rest) = none := by
      simp [readNumbered?, numbered, after?]
    rw [skipBased, hlinks, hnone]
    exact hnext
  | some m =>
    have hlinks : e.links ++ rest = numbered "sbasedon" m ++ (numbered "snext" e.next ++ rest) := by
      simp [StyleEntry.links, hbased]
    have hstop : Stops Char.isDigit (numbered "snext" e.next ++ rest) := stops_cons (by decide) _
    rw [skipBased, hlinks, readNumbered?_numbered "sbasedon" m hstop]
    exact hnext

/-- **An entry is read as it is written.** -/
theorem read?_body (e : StyleEntry) (rest : List Char) :
    read? (e.body ++ rest) = some (e.style, rest) := by
  have hlinks : Stops Char.isDigit
      (e.links ++ (written e.words ++ ' ' :: (e.name ++ ';' :: rest))) := by
    rw [StyleEntry.links]
    cases e.basedOn <;> exact stops_cons (by decide) _
  have hwords : Stops Char.isDigit (written e.words ++ ' ' :: (e.name ++ ';' :: rest)) :=
    stops_written_of_ne_nil (by decide) e.words_ne_nil _
  rw [read?_eq, e.body_append, readNumbered?_numbered "s" e.number hlinks, Option.bind_some,
    readNumbered?_links e hwords, Option.bind_some,
    readBody?_written e.words_ne_nil e.isWord e.isName rest]
  rfl

end Style

/-! ## Tables -/

namespace StyleEntry

variable {p : StyleEntry → Prop} {entries : List StyleEntry} {e : StyleEntry}

/-- The last of some entries with a property. -/
def IsLast (p : StyleEntry → Prop) (entries : List StyleEntry) (e : StyleEntry) : Prop :=
  ∃ before after, entries = before ++ e :: after ∧ p e ∧ ∀ d ∈ after, ¬ p d

theorem IsLast.mem (h : IsLast p entries e) : e ∈ entries := by
  obtain ⟨before, after, rfl, -, -⟩ := h
  simp

theorem IsLast.prop (h : IsLast p entries e) : p e := by
  obtain ⟨before, after, rfl, hp, -⟩ := h
  exact hp

theorem isLast_iff [DecidablePred p] :
    IsLast p entries e ↔ entries.reverse.find? (p ·) = some e := by
  rw [List.find?_eq_some_iff_append, IsLast]
  simp only [decide_eq_true_eq, Bool.not_eq_true', decide_eq_false_iff_not]
  constructor
  · rintro ⟨before, after, rfl, hp, hafter⟩
    exact ⟨hp, after.reverse, before.reverse, by simp, fun d hd => hafter d (by simpa using hd)⟩
  · rintro ⟨hp, front, back, hreverse, hfront⟩
    refine ⟨back.reverse, front.reverse, ?_, hp, fun d hd => hfront d (by simpa using hd)⟩
    rw [← List.reverse_reverse entries, hreverse]
    simp

/-- Some entry is the last one, if there is any. -/
theorem exists_isLast (he : e ∈ entries) (hp : p e) : ∃ d, IsLast p entries d := by
  classical
  have hfound : (entries.reverse.find? (p ·)).isSome = true := by
    rw [List.find?_isSome]
    exact ⟨e, by simpa using he, by simpa using hp⟩
  obtain ⟨d, hd⟩ := Option.isSome_iff_exists.1 hfound
  exact ⟨d, isLast_iff.2 hd⟩

end StyleEntry

namespace StyleSheet

open ControlWord StyleEntry

variable {rest front : List Char} {entries : List StyleEntry}

/-- An entry between braces. -/
def braced (e : StyleEntry) : List Char := '\x7b' :: (e.body ++ ['\x7d'])

/-- A table of styles as it is written. -/
def table (entries : List StyleEntry) : List Char :=
  '\x7b' :: (written ["stylesheet".toList] ++ (entries.flatMap braced ++ ['\x7d']))

/-! ### Entries found -/

theorem scan_eq_drop (skip : Nat) (cs : List Char) : scan skip cs = scan 0 (cs.drop skip) := by
  induction cs generalizing skip with
  | nil => simp [scan]
  | cons c cs ih =>
    cases skip with
    | zero => rfl
    | succ skip =>
      rw [scan, ih]
      rfl

/-- Where no backslash stands, no entry starts. -/
theorem scan_append_of_not_mem (hfront : '\\' ∉ front) (rest : List Char) :
    scan 0 (front ++ rest) = scan 0 rest := by
  induction front with
  | nil => rfl
  | cons c front ih =>
    rw [List.mem_cons, not_or] at hfront
    obtain ⟨hc, hfront⟩ := hfront
    have hnone : Style.read? (c :: (front ++ rest)) = none := by
      simp [Style.read?_eq, Style.readNumbered?, after?, hc]
    rw [List.cons_append, scan, hnone]
    exact ih hfront

/-- Nor where a control word stands that starts none. -/
theorem scan_word {word : List Char} (hword : '\\' ∉ word)
    (h : Style.read? ('\\' :: (word ++ rest)) = none) :
    scan 0 ('\\' :: (word ++ rest)) = scan 0 rest := by
  rw [scan, h]
  exact scan_append_of_not_mem hword rest

/-- An entry is found, and the search goes on after it. -/
theorem scan_body (e : StyleEntry) (rest : List Char) :
    scan 0 (e.body ++ rest) = e.style :: scan 0 rest := by
  have hread := Style.read?_body e rest
  obtain ⟨cs, hcs⟩ : ∃ cs, e.body = '\\' :: cs := ⟨_, rfl⟩
  rw [hcs, List.cons_append] at hread ⊢
  rw [scan, hread]
  dsimp only
  rw [scan_eq_drop]
  simp

theorem scan_braced (e : StyleEntry) (rest : List Char) :
    scan 0 (braced e ++ rest) = e.style :: scan 0 rest := by
  have hbraced : braced e ++ rest = ['\x7b'] ++ (e.body ++ (['\x7d'] ++ rest)) := by
    simp [braced]
  rw [hbraced, scan_append_of_not_mem (by decide), scan_body, scan_append_of_not_mem (by decide)]

theorem scan_flatMap_braced (entries : List StyleEntry) (rest : List Char) :
    scan 0 (entries.flatMap braced ++ rest) = entries.map style ++ scan 0 rest := by
  induction entries with
  | nil => rfl
  | cons e entries ih =>
    rw [List.flatMap_cons, List.append_assoc, scan_braced, ih]
    rfl

/-- **The entries of a table are found, and nothing else is.** -/
theorem scan_table (entries : List StyleEntry) (rest : List Char) :
    scan 0 (table entries ++ rest) = entries.map style ++ scan 0 rest := by
  have htable : table entries ++ rest = ['\x7b'] ++ '\\' :: ("stylesheet".toList ++
      (entries.flatMap braced ++ (['\x7d'] ++ rest))) := by
    simp [table, written]
  have hnone : Style.read? ('\\' :: ("stylesheet".toList ++
      (entries.flatMap braced ++ (['\x7d'] ++ rest)))) = none := by
    simp [Style.read?_eq, Style.readNumbered?, after?]
  rw [htable, scan_append_of_not_mem (by decide), scan_word (by decide) hnone,
    scan_flatMap_braced, scan_append_of_not_mem (by decide)]

/-! ### What they are found by -/

theorem run_style (e : StyleEntry) : e.style.run = e.run := by
  have hchars : (e.words.map (⟨·, false⟩)).flatMap ControlWord.chars = written e.words := by
    simp [List.flatMap_map, ControlWord.chars, written]
  rw [Style.run, style, hchars]
  rfl

/-- The last entry with a property is the last style with it. -/
theorem find?_styles_eq_some_iff {q : Style → Bool} {p : StyleEntry → Prop}
    (h : ∀ e ∈ entries, q e.style = true ↔ p e) {run : List Char} :
    ((entries.map style).reverse.find? q).map Style.run = some run ↔
      ∃ e, IsLast p entries e ∧ run = e.run := by
  classical
  have hfind : entries.reverse.find? (q ∘ style) = entries.reverse.find? (p ·) := by
    rw [← List.head?_filter, ← List.head?_filter]
    refine congrArg List.head? (List.filter_congr fun e he => ?_)
    rw [Bool.eq_iff_iff, decide_eq_true_iff]
    exact h e (List.mem_reverse.1 he)
  rw [← List.map_reverse, List.find?_map, hfind, Option.map_map, Option.map_eq_some_iff]
  refine exists_congr fun e => and_congr isLast_iff.symm ?_
  rw [Function.comp_apply, run_style, eq_comm]

theorem named?_eq_some_iff {name : String} {run : List Char} :
    named? (entries.map style) name = some run ↔
      ∃ e, IsLast (fun d => String.ofList d.name = name) entries e ∧ run = e.run := by
  refine find?_styles_eq_some_iff fun e _ => ?_
  rw [beq_iff_eq, ← String.toList_inj, String.toList_ofList]
  rfl

/-- The number that is read of an entry is its own. -/
theorem number_style {e : StyleEntry} (h : e.number < 2 ^ 53) : e.style.number = some e.number := by
  rw [Style.number, style, digits?_decimal, Option.bind_some, Binary64.round_of_lt h]

theorem numbered?_eq_some_iff (h : ∀ e ∈ entries, e.number < 2 ^ 53) {n : Nat} {run : List Char} :
    numbered? (entries.map style) (some n) = some run ↔
      ∃ e, IsLast (fun d => d.number = n) entries e ∧ run = e.run := by
  refine find?_styles_eq_some_iff fun e he => ?_
  rw [beq_iff_eq, number_style (h e he), Option.some.injEq]

/-! ### What is listed of them -/

theorem mem_byName_iff {name run : String} : (name, run) ∈ byName (entries.map style) ↔
    ∃ e, IsLast (fun d => String.ofList d.name = name) entries e ∧ run = String.ofList e.run := by
  simp only [byName, List.mem_filterMap, Option.map_eq_some_iff, Prod.mk.injEq, Text.sorted,
    List.mem_mergeSort, List.mem_eraseDups, named?_eq_some_iff]
  constructor
  · rintro ⟨_, -, _, ⟨e, he, rfl⟩, rfl, rfl⟩
    exact ⟨e, he, rfl⟩
  · rintro ⟨e, he, rfl⟩
    refine ⟨name, ?_, e.run, ⟨e, he, rfl⟩, rfl, rfl⟩
    rw [List.map_map]
    exact List.mem_map.2 ⟨e, he.mem, he.prop⟩

theorem mem_byNumber_iff (h : ∀ e ∈ entries, e.number < 2 ^ 53) {key run : String} :
    (key, run) ∈ byNumber (entries.map style) ↔ ∃ n e, IsLast (fun d => d.number = n) entries e ∧
      key = toString n ∧ run = String.ofList e.run := by
  have htext : ∀ e ∈ entries, numberText (some e.number) = toString e.number := fun e he =>
    Binary64.text_of_lt (h e he)
  simp only [byNumber, List.mem_filterMap, Option.map_eq_some_iff, Prod.mk.injEq,
    List.mem_mergeSort, List.mem_eraseDups, List.map_map, List.mem_map]
  constructor
  · rintro ⟨_, ⟨e, he, rfl⟩, _, hfound, rfl, rfl⟩
    rw [Function.comp_apply, number_style (h e he)] at hfound ⊢
    obtain ⟨d, hd, rfl⟩ := (numbered?_eq_some_iff h).1 hfound
    exact ⟨e.number, d, hd, htext e he, rfl⟩
  · rintro ⟨_, e, he, rfl, rfl⟩
    obtain rfl := he.prop
    refine ⟨some e.number, ⟨e, he.mem, number_style (h e he.mem)⟩, e.run, ?_, htext e he.mem, rfl⟩
    exact (numbered?_eq_some_iff h).2 ⟨e, he, rfl⟩

/-- What is found by the numbers and by the names of some entries. -/
structure Lists (entries : List StyleEntry) (found : List Style) : Prop where
  /-- The numbers are those of the entries, -/
  numbers : ∀ key, key ∈ (byNumber found).map Prod.fst ↔ ∃ e ∈ entries, key = toString e.number
  /-- and so are the names. -/
  names : ∀ key, key ∈ (byName found).map Prod.fst ↔ ∃ e ∈ entries, key = String.ofList e.name
  /-- With a number stands the run of the last entry that has it, -/
  numbered : ∀ n run, (toString n, run) ∈ byNumber found ↔
    ∃ e, IsLast (fun d => d.number = n) entries e ∧ run = String.ofList e.run
  /-- and with a name that of the last entry that has this. -/
  named : ∀ name run, (name, run) ∈ byName found ↔
    ∃ e, IsLast (fun d => String.ofList d.name = name) entries e ∧ run = String.ofList e.run

theorem lists_styles (h : ∀ e ∈ entries, e.number < 2 ^ 53) :
    Lists entries (entries.map style) where
  numbers key := by
    simp only [List.mem_map, Prod.exists, mem_byNumber_iff h]
    constructor
    · rintro ⟨_, run, ⟨n, e, he, rfl, -⟩, rfl⟩
      exact ⟨e, he.mem, by rw [he.prop]⟩
    · rintro ⟨e, he, rfl⟩
      obtain ⟨d, hd⟩ := exists_isLast (p := fun d => d.number = e.number) he rfl
      exact ⟨toString e.number, _, ⟨e.number, d, hd, rfl, rfl⟩, rfl⟩
  names key := by
    simp only [List.mem_map, Prod.exists, mem_byName_iff]
    constructor
    · rintro ⟨_, run, ⟨e, he, -⟩, rfl⟩
      exact ⟨e, he.mem, he.prop.symm⟩
    · rintro ⟨e, he, rfl⟩
      obtain ⟨d, hd⟩ :=
        exists_isLast (p := fun d => String.ofList d.name = String.ofList e.name) he rfl
      exact ⟨String.ofList e.name, _, ⟨d, hd, rfl⟩, rfl⟩
  numbered n run := by
    rw [mem_byNumber_iff h]
    constructor
    · rintro ⟨m, e, he, hkey, rfl⟩
      rw [← toString_injective hkey] at he
      exact ⟨e, he, rfl⟩
    · rintro ⟨e, he, rfl⟩
      exact ⟨n, e, he, rfl, rfl⟩
  named name run := mem_byName_iff

theorem styles_eq_ok_iff {document : String} {found : List Style} :
    styles document = .ok found ↔ scan 0 document.toList = found ∧ found ≠ [] := by
  rw [styles]
  split
  · next hnone =>
    rw [hnone]
    simp
  · next hne =>
    rw [Except.ok.injEq]
    exact (and_iff_left_of_imp fun heq => heq ▸ hne).symm

/-- **A table of styles reads back.** -/
theorem styles_table (hne : entries ≠ []) (h : ∀ e ∈ entries, e.number < 2 ^ 53) :
    ∃ found, styles (String.ofList (table entries)) = .ok found ∧ Lists entries found := by
  refine ⟨entries.map style, styles_eq_ok_iff.2 ⟨?_, by simpa using hne⟩, lists_styles h⟩
  have hscan := scan_table entries []
  rwa [List.append_nil, show scan 0 [] = [] from rfl, List.append_nil,
    ← String.toList_ofList (l := table entries)] at hscan

/-- Two styles with one number, of which the second has the name of a third one. Some control words
    look like numbers of styles. -/
def overlapping : List StyleEntry :=
  [{ number := 1, basedOn := none, next := 2, name := "Heading".toList,
     words := ["s5".toList, "snext0".toList, "ql".toList] },
   { number := 20, basedOn := some 1, next := 20, name := "Quotations".toList,
     words := ["i".toList] },
   { number := 1, basedOn := none, next := 1, name := "Quotations".toList,
     words := ["sbasedon1".toList] }]

theorem styles_table_overlapping : overlapping ≠ [] ∧ (∀ e ∈ overlapping, e.number < 2 ^ 53) ∧
    ∃ found, styles (String.ofList (table overlapping)) = .ok found ∧ Lists overlapping found :=
  ⟨by decide, by decide, styles_table (by decide) (by decide)⟩

end StyleSheet

end Crosspost
