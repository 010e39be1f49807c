/-
  White space around the lines of a source.

  A source is read line by line without the white space around its lines, so neither a byte
  order mark nor line ends of another kind nor indentation make a difference.

  * `Source.lines_normalize`: **the lines of a normalized source are the trimmed lines of the
    source**; it is normalized as it is (`Source.normalize_normalize`);
  * `Source.Respaces`: one source is another with a byte order mark before it, a carriage return
    before a line feed, or more white space at the start or at the end of a line;
  * `Source.normalize_eq_of_respaced`: such sources are read alike.
-/
import Mathlib.Logic.Relation
import Crosspost.Description.Generated
import Crosspost.Proofs.Text.LineEnds

namespace Crosspost

namespace Source

open Chars

/-! ## Lines -/

/-- The trimmed pieces of a text between line feeds. -/
def pieces (cs : List Char) : List (List Char) := (splitOn '\n' cs).map trim

theorem pieces_append (front back : List Char) :
    pieces (front ++ '\n' :: back) = pieces front ++ pieces back := by
  rw [pieces, splitOn_append_cons, List.map_append, pieces, pieces]

theorem pieces_ne_nil (cs : List Char) : pieces cs ≠ [] := by
  simpa [pieces, splitOn] using split_ne_nil _ cs

theorem not_mem_of_mem_pieces {cs piece : List Char} (h : piece ∈ pieces cs) : '\n' ∉ piece := by
  obtain ⟨written, hw, rfl⟩ := List.mem_map.1 h
  exact fun hm => not_mem_of_mem_splitOn hw (trim_subset written hm)

section
variable {pad : List Char} (hpad : ∀ c ∈ pad, isBlank c = true ∧ c ≠ '\n')
include hpad

theorem pieces_blank_append (back : List Char) : pieces (pad ++ back) = pieces back :=
  map_trim_blank_append hpad back

theorem pieces_append_blank (front : List Char) : pieces (front ++ pad) = pieces front :=
  map_trim_append_blank hpad front

theorem pieces_after (front back : List Char) :
    pieces (front ++ (pad ++ '\n' :: back)) = pieces (front ++ '\n' :: back) := by
  rw [← List.append_assoc, pieces_append, pieces_append, pieces_append_blank hpad]

end

theorem pieces_dropMark (cs : List Char) : pieces (dropMark cs) = pieces cs :=
  map_trim_dropMark cs

theorem toList_normalize (raw : String) :
    (normalize raw).toList = ['\n'].intercalate (pieces raw.toList) := by
  have hlines : (Text.trimmedLines (Text.dropMark raw)).map String.toList =
      pieces (dropMark raw.toList) := by
    simp [Text.trimmedLines, pieces]
  rw [normalize, String.toList_intercalate, hlines, pieces_dropMark]
  rfl

theorem splitOn_normalize (raw : String) :
    splitOn '\n' (normalize raw).toList = pieces raw.toList := by
  rw [toList_normalize]
  exact splitOn_intercalate (pieces_ne_nil _) fun piece hp => not_mem_of_mem_pieces hp

theorem normalize_eq_of_pieces_eq {raw raw' : String} (h : pieces raw.toList = pieces raw'.toList) :
    normalize raw = normalize raw' := by
  apply String.toList_injective
  rw [toList_normalize, toList_normalize, h]

theorem normalize_normalize (raw : String) : normalize (normalize raw) = normalize raw := by
  refine normalize_eq_of_pieces_eq ?_
  have htwice : trim ∘ trim = trim := funext trim_trim
  rw [pieces, splitOn_normalize, pieces, List.map_map, htwice]

/-- **The lines of a normalized source are the trimmed lines of the source.** -/
theorem lines_normalize (raw : String) :
    lines (normalize raw).toList = (lines raw.toList).map trim := by
  have hlines : lines (normalize raw).toList = splitOn '\n' (normalize raw).toList := by
    refine lines_eq_splitOn fun piece hp hlast => ?_
    rw [splitOn_normalize] at hp
    obtain ⟨written, -, rfl⟩ := List.mem_map.1 hp
    obtain ⟨front, hfront⟩ := List.getLast?_eq_some_iff.1 hlast
    exact absurd (trim_last hfront) (by decide)
  rw [hlines, splitOn_normalize, map_trim_lines, pieces]

/-! ## Other white space -/

/-- White space within a line. -/
def IsPadding (pad : String) : Prop := ∀ c ∈ pad.toList, isBlank c = true ∧ c ≠ '\n'

/-- After a text a line starts. -/
def StartsLine (front : String) : Prop := front = "" ∨ ∃ before, front = before ++ "\n"

/-- Before a text a line ends. -/
def EndsLine (back : String) : Prop :=
  back = "" ∨ ∃ after, back = "\n" ++ after ∨ back = "\r\n" ++ after

/-- The second source is the first one with white space added that is no part of its lines. -/
inductive Respaces : String → String → Prop
  | mark (raw : String) : Respaces raw (.singleton byteOrderMark ++ raw)
  | lineEnd (front back : String) : Respaces (front ++ "\n" ++ back) (front ++ "\r\n" ++ back)
  | before {front pad : String} (back : String) : StartsLine front → IsPadding pad →
      Respaces (front ++ back) (front ++ pad ++ back)
  | after (front : String) {pad back : String} : EndsLine back → IsPadding pad →
      Respaces (front ++ back) (front ++ pad ++ back)

theorem Respaces.pieces_eq {raw raw' : String} (h : Respaces raw raw') :
    pieces raw'.toList = pieces raw.toList := by
  have hreturn : ∀ c ∈ ['\r'], isBlank c = true ∧ c ≠ '\n' :=
    List.forall_mem_singleton.2 (by decide)
  cases h with
  | mark =>
    rw [String.toList_append, String.toList_singleton]
    exact pieces_blank_append (List.forall_mem_singleton.2 (by decide)) _
  | lineEnd front back => simpa using pieces_after hreturn front.toList back.toList
  | @before front pad back hfront hpad =>
    obtain rfl | ⟨lines, rfl⟩ := hfront
    · simpa using pieces_blank_append hpad back.toList
    · simp [pieces_append, pieces_blank_append hpad]
  | @after front pad back hback hpad =>
    obtain rfl | ⟨lines, rfl | rfl⟩ := hback
    · simpa using pieces_append_blank hpad front.toList
    · simpa using pieces_after hpad front.toList lines.toList
    · -- the carriage return is white space at the end of the line as well
      have hboth : ∀ c ∈ pad.toList ++ ['\r'], isBlank c = true ∧ c ≠ '\n' :=
        List.forall_mem_append.2 ⟨hpad, hreturn⟩
      have hlong := pieces_after hboth front.toList lines.toList
      rw [← pieces_after hreturn front.toList lines.toList] at hlong
      simpa using hlong

/-- Sources that differ in such white space are read alike. -/
theorem normalize_eq_of_respaced {raw raw' : String} (h : Relation.EqvGen Respaces raw raw') :
    normalize raw = normalize raw' := by
  induction h with
  | rel _ _ h => exact (normalize_eq_of_pieces_eq h.pieces_eq).symm
  | refl => rfl
  | symm _ _ _ ih => exact ih.symm
  | trans _ _ _ _ _ ih ih' => exact ih.trans ih'

end Source

/-- What is generated from a source depends on the normalized source. -/
theorem Generated.ofSource_congr {raw raw' : String}
    (h : Source.normalize raw = Source.normalize raw') (R : Registry) (usernames : Usernames)
    (flags : List String) : ofSource R usernames flags raw = ofSource R usernames flags raw' := by
  rw [ofSource, ofSource, h]

end Crosspost
