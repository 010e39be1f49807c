/-
  The lines of a text.

  A line ends at a line feed, and a carriage return just before that is not part of the line.
  The pieces between line feeds differ from the lines in that carriage return alone, which is
  white space; so it does not matter which of them are trimmed.

  * `Chars.lines`: the lines of a text;
  * `Chars.Longer`: what a piece may have after the line in it;
  * `Chars.map_trim_lines`: **trimmed lines are the trimmed pieces between line feeds**;
  * `Chars.map_trim_blank_append`, `Chars.map_trim_append_blank`: white space at the start or at
    the end of a text goes with the trimming of its lines.
-/
import Mathlib.Data.List.Forall2
import Crosspost.Proofs.Text.Splitting
import Crosspost.Proofs.Text.Trimming

namespace Crosspost

namespace Chars

/-- The lines of a text, each ended by a line feed or by a carriage return and a line feed. -/
def lines : List Char → List (List Char)
  | [] => [[]]
  | '\r' :: '\n' :: cs => [] :: lines cs
  | c :: cs => if c = '\n' then [] :: lines cs else (lines cs).modifyHead (c :: ·)

variable {cs pad line : List Char}

/-- A piece is another one, perhaps with some characters after it. -/
def Longer (pad a b : List Char) : Prop := b = a ∨ b = a ++ pad

theorem Longer.trim_eq {a b : List Char} (h : Longer pad a b)
    (hpad : ∀ c ∈ pad, isBlank c = true) : trim b = trim a := by
  rcases h with rfl | rfl
  · rfl
  · exact trim_append_of_blank_end hpad a

theorem map_trim_of_longer {as bs : List (List Char)} (h : List.Forall₂ (Longer pad) as bs)
    (hpad : ∀ c ∈ pad, isBlank c = true) : bs.map trim = as.map trim := by
  induction h with
  | nil => rfl
  | cons hline _ ih => rw [List.map_cons, List.map_cons, ih, hline.trim_eq hpad]

/-- One more character at the start of both. -/
theorem forall₂_longer_modifyHead {as bs : List (List Char)}
    (h : List.Forall₂ (Longer pad) as bs) (c : Char) :
    List.Forall₂ (Longer pad) (as.modifyHead (c :: ·)) (bs.modifyHead (c :: ·)) := by
  cases h with
  | nil => exact .nil
  | cons hline hrest =>
    refine .cons ?_ hrest
    rcases hline with rfl | rfl
    · exact .inl rfl
    · exact .inr rfl

/-! ## Line ends -/

/-- A piece between line feeds is a line, perhaps with a carriage return after it. -/
theorem forall₂_lines (cs : List Char) :
    List.Forall₂ (Longer ['\r']) (lines cs) (splitOn '\n' cs) := by
  fun_induction lines cs with
  | case1 => exact .cons (.inl rfl) .nil
  | case2 cs ih =>
    have hsplit : splitOn '\n' ('\r' :: '\n' :: cs) = ['\r'] :: splitOn '\n' cs := by
      rw [splitOn_cons_of_ne (by decide), splitOn_cons_self]
      rfl
    rw [hsplit]
    exact .cons (.inr rfl) ih
  | case3 cs _ ih =>
    rw [splitOn_cons_self]
    exact .cons (.inl rfl) ih
  | case4 c cs _ hc ih =>
    rw [splitOn_cons_of_ne hc]
    exact forall₂_longer_modifyHead ih c

/-- **Trimmed lines are the trimmed pieces between line feeds.** -/
theorem map_trim_lines (cs : List Char) : (lines cs).map trim = (splitOn '\n' cs).map trim :=
  (map_trim_of_longer (forall₂_lines cs) (List.forall_mem_singleton.2 (by decide))).symm

/-- Pieces that do not end in a carriage return are the lines. -/
theorem lines_eq_splitOn (h : ∀ piece ∈ splitOn '\n' cs, piece.getLast? ≠ some '\r') :
    lines cs = splitOn '\n' cs := by
  have hpieces := forall₂_lines cs
  generalize lines cs = ls, splitOn '\n' cs = pieces at h hpieces
  induction hpieces with
  | nil => rfl
  | cons hline _ ih =>
    obtain ⟨hpiece, hrest⟩ := List.forall_mem_cons.1 h
    rw [ih hrest]
    rcases hline with rfl | rfl
    · rfl
    · simp at hpiece

/-- A piece with something that is not blank starts with the white space of its line. -/
theorem takeWhile_of_line {lead rest : List Char} {piece : List Char} {c : Char}
    (hpiece : piece = lead ++ c :: rest) (hlead : ∀ d ∈ lead, isBlank d = true)
    (hc : isBlank c = false) (h : Longer ['\r'] line piece) :
    line.takeWhile isBlank = lead := by
  have hstart : piece.takeWhile isBlank = lead := by
    rw [hpiece, List.takeWhile_append_of_pos hlead, List.takeWhile_cons_of_neg (by simp [hc])]
    simp
  rcases h with rfl | rfl
  · exact hstart
  · rw [← hstart, List.takeWhile_append]
    split_ifs with hall
    · -- a blank line with a carriage return after it would be blank
      have hblank : ∀ d ∈ line ++ ['\r'], isBlank d = true := by
        intro d hd
        rcases List.mem_append.1 hd with hd | hd
        · refine List.mem_takeWhile_imp (l := line) ?_
          rwa [(List.takeWhile_prefix isBlank).eq_of_length hall]
        · rw [List.mem_singleton.1 hd]
          decide
      have hcblank := hblank c (by simp [hpiece])
      rw [hc] at hcblank
      cases hcblank
    · rfl

/-! ## White space around lines -/

section
variable (hpad : ∀ c ∈ pad, isBlank c = true ∧ c ≠ '\n')
include hpad

theorem map_trim_blank_append (cs : List Char) :
    (splitOn '\n' (pad ++ cs)).map trim = (splitOn '\n' cs).map trim := by
  induction pad with
  | nil => rfl
  | cons c pad ih =>
    obtain ⟨hc, hrest⟩ := List.forall_mem_cons.1 hpad
    rw [← ih hrest, List.cons_append, splitOn_cons_of_ne hc.2]
    cases splitOn '\n' (pad ++ cs) with
    | nil => rfl
    | cons piece pieces =>
      have htrim : trim (c :: piece) = trim piece := by
        rw [trim, trim, trimStart_cons_of_blank hc.1]
      rw [List.modifyHead_cons, List.map_cons, List.map_cons, htrim]

/-- Only the last piece is longer with white space at the end. -/
theorem forall₂_append_blank (cs : List Char) :
    List.Forall₂ (Longer pad) (splitOn '\n' cs) (splitOn '\n' (cs ++ pad)) := by
  induction cs with
  | nil =>
    have hone : splitOn '\n' pad = [pad] :=
      split_of_forall_not fun c hc => by simpa using (hpad c hc).2
    rw [List.nil_append, hone]
    exact .cons (.inr rfl) .nil
  | cons c cs ih =>
    by_cases hc : c = '\n'
    · rw [hc, List.cons_append, splitOn_cons_self, splitOn_cons_self]
      exact .cons (.inl rfl) ih
    · rw [List.cons_append, splitOn_cons_of_ne hc, splitOn_cons_of_ne hc]
      exact forall₂_longer_modifyHead ih c

theorem map_trim_append_blank (cs : List Char) :
    (splitOn '\n' (cs ++ pad)).map trim = (splitOn '\n' cs).map trim :=
  map_trim_of_longer (forall₂_append_blank hpad cs) fun c hc => (hpad c hc).1

end

/-- A byte order mark is white space like any other. -/
theorem map_trim_dropMark (cs : List Char) :
    (splitOn '\n' (dropMark cs)).map trim = (splitOn '\n' cs).map trim := by
  cases cs with
  | nil => rfl
  | cons c cs =>
    rw [dropMark]
    split_ifs with hc
    · have hblank : ∀ d ∈ [c], isBlank d = true ∧ d ≠ '\n' := by
        rw [hc]
        exact List.forall_mem_singleton.2 (by decide)
      exact (map_trim_blank_append hblank cs).symm
    · rfl

end Chars

end Crosspost
