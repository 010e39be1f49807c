/-
  One text in the place of another.

  * `Chars.replace_append_of_not_mem`, `Chars.replace_cons_append`: parts of a text in which the
    old one does not start stay as they are;
  * `Chars.replace_append_self`: an occurrence is replaced, and the search goes on after it;
  * `Chars.Replaces old new cs result rests`: the occurrences that are replaced, told by the
    `rests` after them; `Chars.exists_replaces`: this is what replacing does.
-/
import Mathlib.Data.List.Basic
import Mathlib.Data.List.Infix
import Crosspost.Proofs.Text.Runs

namespace Crosspost.Chars

variable {old new front rest cs : List Char} {c : Char}

theorem isSome_after?_iff : (after? old cs).isSome = true ↔ old <+: cs := by
  rw [Option.isSome_iff_exists]
  exact exists_congr fun rest => after?_eq_some_iff.trans eq_comm

/-- Characters that are passed over do not count. -/
theorem replaceFrom_eq_drop (old new : List Char) (skip : Nat) (cs : List Char) :
    replaceFrom old new skip cs = replace old new (cs.drop skip) := by
  induction cs generalizing skip with
  | nil => simp [replace, replaceFrom]
  | cons c cs ih =>
    cases skip with
    | zero => rfl
    | succ skip =>
      rw [replaceFrom, ih]
      rfl

theorem replace_cons_of_not_prefix_cons (h : ¬ old <+: c :: cs) :
    replace old new (c :: cs) = c :: replace old new cs := by
  rw [replace, replaceFrom, if_neg (isSome_after?_iff.not.2 h)]
  rfl

/-- An occurrence is replaced, and the search goes on after it. -/
theorem replace_append_self (hold : old ≠ []) (new rest : List Char) :
    replace old new (old ++ rest) = new ++ replace old new rest := by
  obtain ⟨c, cs, rfl⟩ := List.exists_cons_of_ne_nil hold
  have hfound := isSome_after?_iff.2 (List.prefix_append (c :: cs) rest)
  rw [List.cons_append] at hfound ⊢
  rw [replace, replaceFrom, if_pos hfound, replaceFrom_eq_drop]
  simp

/-- A part without the first character of the old text stays as it is. -/
theorem replace_append_of_not_mem (hfront : c ∉ front) (old new rest : List Char) :
    replace (c :: old) new (front ++ rest) = front ++ replace (c :: old) new rest := by
  induction front with
  | nil => rfl
  | cons d front ih =>
    rw [List.mem_cons, not_or] at hfront
    obtain ⟨hd, hfront⟩ := hfront
    have hnot : ¬ c :: old <+: d :: (front ++ rest) := fun h => hd (List.cons_prefix_cons.1 h).1
    rw [List.cons_append, replace_cons_of_not_prefix_cons hnot, ih hfront, List.cons_append]

/-- And so does one with that character only at its start, if the old text does not start there. -/
theorem replace_cons_append (hfront : c ∉ front) (h : ¬ c :: old <+: c :: (front ++ rest)) :
    replace (c :: old) new (c :: (front ++ rest)) =
      c :: (front ++ replace (c :: old) new rest) := by
  rw [replace_cons_of_not_prefix_cons h, replace_append_of_not_mem hfront]

/-- One text in the place of another, whose occurrences are found from left to right: the old text
    is neither in what is passed over before an occurrence, nor where that meets the occurrence.
    The list holds what follows each occurrence. -/
inductive Replaces (old new : List Char) : List Char → List Char → List (List Char) → Prop
  | none {cs : List Char} : ¬ old <:+: cs → Replaces old new cs cs []
  | found {front rest result : List Char} {rests : List (List Char)} :
      ¬ old <:+: front ++ old.dropLast → Replaces old new rest result rests →
      Replaces old new (front ++ (old ++ rest)) (front ++ (new ++ result)) (rest :: rests)

/-- One more character is passed over. -/
theorem Replaces.cons {result : List Char} {rests : List (List Char)}
    (h : Replaces old new cs result rests) (hc : ¬ old <+: c :: cs) :
    Replaces old new (c :: cs) (c :: result) rests := by
  cases h with
  | none hnot => exact .none (by simp [List.infix_cons_iff, hc, hnot])
  | @found front rest result rests hnot hrest =>
    have hstart : ¬ old <+: c :: (front ++ old.dropLast) := by
      refine fun h => hc (h.trans ?_)
      rw [List.prefix_cons_inj, List.prefix_append_right_inj]
      exact (List.dropLast_prefix old).trans (List.prefix_append old rest)
    have hfound : ¬ old <:+: (c :: front) ++ old.dropLast := by
      rw [List.cons_append, List.infix_cons_iff, not_or]
      exact ⟨hstart, hnot⟩
    exact .found hfound hrest

/-- **The occurrences of a text are replaced from left to right**, and the rest is kept. -/
theorem exists_replaces (hold : old ≠ []) (new cs : List Char) :
    ∃ rests, Replaces old new cs (replace old new cs) rests := by
  -- an occurrence or one character is done at a time
  induction hn : cs.length using Nat.strong_induction_on generalizing cs with
  | _ n ih =>
    cases cs with
    | nil => exact ⟨[], .none (by simpa using hold)⟩
    | cons c cs =>
      by_cases hfound : old <+: c :: cs
      · obtain ⟨rest, hrest⟩ := hfound
        have hlength := congrArg List.length hrest
        have hpos := List.length_pos_iff.2 hold
        rw [List.length_append] at hlength
        obtain ⟨rests, h⟩ := ih rest.length (by omega) rest rfl
        rw [← hrest, replace_append_self hold]
        have hfirst : ¬ old <:+: [] ++ old.dropLast := fun hinfix => by
          have hshort := hinfix.length_le
          rw [List.nil_append, List.length_dropLast] at hshort
          omega
        exact ⟨rest :: rests, .found hfirst h⟩
      · rw [replace_cons_of_not_prefix_cons hfound]
        obtain ⟨rests, h⟩ := ih cs.length (by simp at hn; omega) cs rfl
        exact ⟨rests, h.cons hfound⟩

end Crosspost.Chars
