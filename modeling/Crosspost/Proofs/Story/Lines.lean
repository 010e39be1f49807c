/-
  The lines of a story.

  * `Story.Tidied ls rs`: what is left of trimmed lines once runs of empty ones are cut to one
    between two others, and to none elsewhere; `Story.tidied_lines_iff`: **the lines of a story are
    just that** of the lines of its text;
  * `Story.IsClean`: a line without white space around it and without line feeds;
    `Story.isClean_of_mem_lines`: so are those of a story;
  * `Story.lines_plainText`, `Story.lines_intercalate`: **what is written of them is read again as
    the same lines.**
-/
import Crosspost.Proofs.Text.LineEnds
import Crosspost.Story.Format

namespace Crosspost

/-- The lines of a text, each ended by a line feed or by a carriage return and a line feed. -/
def Text.lines (text : String) : List String := (Chars.lines text.toList).map String.ofList

namespace Story

variable {started gap : Bool} {line : String} {ls : List String}

/-- The lines that are not empty. -/
def written (ls : List String) : List String := ls.filter (· ≠ "")

/-- The second lines are the first ones that are not empty, in order. An empty one stands between
    two of them where empty ones stood between these, and nowhere else. -/
structure Tidied (ls rs : List String) : Prop where
  written : written rs = written ls
  between : ∀ before a blanks b after, ls = before ++ a :: (blanks ++ b :: after) →
    a ≠ "" → b ≠ "" → (∀ line ∈ blanks, line = "") →
      ∃ front back, rs = front ++ a :: ((if blanks = [] then [] else [""]) ++ b :: back) ∧
        Story.written front = Story.written before ∧ Story.written back = Story.written after
  first : rs.head? ≠ some ""
  last : rs.getLast? ≠ some ""

/-! ## Runs of empty lines -/

theorem squeeze_empty (started gap : Bool) (ls : List String) :
    squeeze started gap ("" :: ls) = squeeze started started ls := by
  rw [squeeze, if_pos rfl]

theorem squeeze_cons (started gap : Bool) (h : line ≠ "") (ls : List String) :
    squeeze started gap (line :: ls) =
      (if gap then [""] else []) ++ line :: squeeze true false ls := by
  rw [squeeze, if_neg h]
  cases gap <;> rfl

theorem written_empty (ls : List String) : written ("" :: ls) = written ls := rfl

theorem written_cons (h : line ≠ "") (ls : List String) :
    written (line :: ls) = line :: written ls := by
  simp [written, h]

theorem written_squeeze (started gap : Bool) (ls : List String) :
    written (squeeze started gap ls) = written ls := by
  induction ls generalizing started gap with
  | nil => rfl
  | cons line ls ih =>
    by_cases h : line = ""
    · rw [h, squeeze_empty, ih, written_empty]
    · rw [squeeze_cons started gap h, written_cons h]
      cases gap <;> simp [written_empty, written_cons h, ih]

/-- Nothing of what came before a line that is not empty counts after it. -/
theorem exists_squeeze_append_cons (started gap : Bool) (before : List String) (h : line ≠ "")
    (ls : List String) : ∃ front, squeeze started gap (before ++ line :: ls) =
      front ++ line :: squeeze true false ls ∧ written front = written before := by
  induction before generalizing started gap with
  | nil =>
    refine ⟨if gap then [""] else [], squeeze_cons started gap h ls, ?_⟩
    cases gap <;> rfl
  | cons first before ih =>
    by_cases hf : first = ""
    · obtain ⟨front, hfront, hw⟩ := ih started started
      rw [List.cons_append, hf, squeeze_empty, written_empty]
      exact ⟨front, hfront, hw⟩
    · obtain ⟨front, hfront, hw⟩ := ih true false
      rw [List.cons_append, squeeze_cons started gap hf, hfront]
      refine ⟨(if gap then [""] else []) ++ first :: front, by simp, ?_⟩
      cases gap <;> simp [written_empty, written_cons hf, hw]

/-- A run of empty lines is cut to one. -/
theorem squeeze_blanks {blanks : List String} (hblanks : ∀ line ∈ blanks, line = "")
    (h : line ≠ "") (ls : List String) : squeeze true false (blanks ++ line :: ls) =
      (if blanks = [] then [] else [""]) ++ line :: squeeze true false ls := by
  have hrun : ∀ blanks : List String, (∀ line ∈ blanks, line = "") →
      squeeze true true (blanks ++ line :: ls) = "" :: line :: squeeze true false ls := by
    intro blanks hall
    induction blanks with
    | nil => exact squeeze_cons true true h ls
    | cons blank blanks ih =>
      obtain ⟨rfl, hrest⟩ := List.forall_mem_cons.1 hall
      rw [List.cons_append, squeeze_empty, ih hrest]
  cases blanks with
  | nil => exact squeeze_cons true false h ls
  | cons blank blanks =>
    obtain ⟨rfl, hrest⟩ := List.forall_mem_cons.1 hblanks
    rw [List.cons_append, squeeze_empty, hrun blanks hrest]
    rfl

theorem head?_squeeze_ne (ls : List String) : (squeeze false false ls).head? ≠ some "" := by
  induction ls with
  | nil => simp [squeeze]
  | cons line ls ih =>
    by_cases h : line = ""
    · rwa [h, squeeze_empty]
    · rw [squeeze_cons false false h]
      simpa using h

theorem getLast?_squeeze_ne (started gap : Bool) (ls : List String) :
    (squeeze started gap ls).getLast? ≠ some "" := by
  induction ls generalizing started gap with
  | nil => simp [squeeze]
  | cons line ls ih =>
    by_cases h : line = ""
    · rw [h, squeeze_empty]
      exact ih started started
    · rw [squeeze_cons started gap h, List.getLast?_append_of_ne_nil _ (by simp)]
      cases hrest : squeeze true false ls with
      | nil => simpa using h
      | cons next rest =>
        rw [List.getLast?_cons_cons, ← hrest]
        exact ih true false

theorem tidied_squeeze (ls : List String) : Tidied ls (squeeze false false ls) where
  written := written_squeeze false false ls
  between before a blanks b after hls ha hb hblanks := by
    obtain ⟨front, hfront, hw⟩ :=
      exists_squeeze_append_cons false false before ha (blanks ++ b :: after)
    refine ⟨front, squeeze true false after, ?_, hw, written_squeeze true false after⟩
    rw [hls, hfront, squeeze_blanks hblanks hb]
  first := head?_squeeze_ne ls
  last := getLast?_squeeze_ne false false ls

/-! ### Nothing else is tidy -/

theorem written_append (front back : List String) :
    written (front ++ back) = written front ++ written back :=
  List.filter_append front back

theorem written_eq_nil_iff : written ls = [] ↔ ∀ line ∈ ls, line = "" := by
  simp [written]

/-- The lines around one that is not empty are told by how many such lines come before it. -/
theorem append_cons_inj {front front' back back' : List String} {a a' : String}
    (h : front ++ a :: back = front' ++ a' :: back') (ha : a ≠ "") (ha' : a' ≠ "")
    (hcount : (written front).length = (written front').length) :
    front = front' ∧ a = a' ∧ back = back' := by
  induction front generalizing front' with
  | nil =>
    cases front' with
    | nil => exact ⟨rfl, List.cons.inj h⟩
    | cons first front' =>
      obtain ⟨rfl, -⟩ := List.cons.inj h
      rw [written_cons ha] at hcount
      cases hcount
  | cons first front ih =>
    cases front' with
    | nil =>
      obtain ⟨rfl, -⟩ := List.cons.inj h
      rw [written_cons ha'] at hcount
      cases hcount
    | cons first' front' =>
      obtain ⟨rfl, hrest⟩ := List.cons.inj h
      have hfront : (written front).length = (written front').length := by
        by_cases hf : first = ""
        · rwa [hf, written_empty, written_empty] at hcount
        · rw [written_cons hf, written_cons hf] at hcount
          exact Nat.succ.inj hcount
      obtain ⟨rfl, rfl, rfl⟩ := ih hrest hfront
      exact ⟨rfl, rfl, rfl⟩

/-- A line that is not empty stands in the lines that are not. -/
theorem exists_split_of_written {rs before after : List String} {a : String}
    (h : written rs = before ++ a :: after) :
    ∃ front back, rs = front ++ a :: back ∧ written front = before ∧ written back = after := by
  obtain ⟨front, back, rfl, hfront, hback⟩ := List.filter_eq_append_iff.1 h
  obtain ⟨blanks, back, rfl, hblanks, -, hafter⟩ := List.filter_eq_cons_iff.1 hback
  have hempty : written blanks = [] := by
    rw [written_eq_nil_iff]
    simpa using hblanks
  refine ⟨front ++ blanks, back, by simp, ?_, hafter⟩
  rw [written_append, hempty, List.append_nil]
  exact hfront

/-- Lines are empty, or up to the first one that is not. -/
theorem eq_empty_or_exists_split (ls : List String) : (∀ line ∈ ls, line = "") ∨
    ∃ blanks a rest, ls = blanks ++ a :: rest ∧ a ≠ "" ∧ ∀ line ∈ blanks, line = "" := by
  induction ls with
  | nil => exact .inl (by simp)
  | cons line ls ih =>
    by_cases h : line = ""
    · obtain hall | ⟨blanks, a, rest, rfl, ha, hblanks⟩ := ih
      · exact .inl (List.forall_mem_cons.2 ⟨h, hall⟩)
      · exact .inr ⟨line :: blanks, a, rest, rfl, ha, List.forall_mem_cons.2 ⟨h, hblanks⟩⟩
    · exact .inr ⟨[], line, ls, rfl, h, by simp⟩

theorem squeeze_of_forall_eq (started gap : Bool) (h : ∀ line ∈ ls, line = "") :
    squeeze started gap ls = [] := by
  induction ls generalizing gap with
  | nil => rfl
  | cons line ls ih =>
    obtain ⟨rfl, hrest⟩ := List.forall_mem_cons.1 h
    rw [squeeze_empty, ih started hrest]

theorem squeeze_of_blanks {blanks : List String} (hblanks : ∀ line ∈ blanks, line = "")
    (h : line ≠ "") (ls : List String) :
    squeeze false false (blanks ++ line :: ls) = line :: squeeze true false ls := by
  induction blanks with
  | nil => exact squeeze_cons false false h ls
  | cons blank blanks ih =>
    obtain ⟨rfl, hrest⟩ := List.forall_mem_cons.1 hblanks
    rw [List.cons_append, squeeze_empty, ih hrest]

namespace Tidied

variable {rs : List String}

/-- What stands after a line that is not empty. The way goes from the last line to the first. -/
theorem exists_split (h : Tidied ls rs) {before rest : List String} {a : String}
    (hls : ls = before ++ a :: rest) (ha : a ≠ "") :
    ∃ front, rs = front ++ a :: squeeze true false rest ∧
      Story.written front = Story.written before := by
  obtain hall | ⟨blanks, b, after, rfl, hb, hblanks⟩ := eq_empty_or_exists_split rest
  · have hwritten : Story.written rs = Story.written before ++ [a] := by
      rw [h.written, hls, written_append, written_cons ha, written_eq_nil_iff.2 hall]
    obtain ⟨front, back, rfl, hfront, hback⟩ := exists_split_of_written hwritten
    obtain rfl | ⟨back, last, rfl⟩ := List.eq_nil_or_concat back
    · rw [squeeze_of_forall_eq true false hall]
      exact ⟨front, rfl, hfront⟩
    · -- an empty line cannot be the last one
      have hlast : last = "" := written_eq_nil_iff.1 hback last (by simp)
      have hend : front ++ a :: back.concat last = (front ++ a :: back) ++ [""] := by simp [hlast]
      refine absurd ?_ h.last
      rw [hend, List.getLast?_concat]
  · have hnext : ls = (before ++ a :: blanks) ++ b :: after := by simp [hls]
    obtain ⟨front', hfront', hw'⟩ := h.exists_split hnext hb
    obtain ⟨front, back, hfront, hw, -⟩ := h.between before a blanks b after hls ha hb hblanks
    have hgap : Story.written (if blanks = [] then [] else [""]) = [] := by
      split_ifs <;> rfl
    have hcount : Story.written (front ++ a :: if blanks = [] then [] else [""]) =
        Story.written front' := by
      rw [hw', written_append, written_append, written_cons ha, written_cons ha, hgap, hw,
        written_eq_nil_iff.2 hblanks]
    have heq : (front ++ a :: if blanks = [] then [] else [""]) ++ b :: back =
        front' ++ b :: squeeze true false after := by
      rw [← hfront', hfront]
      simp
    obtain ⟨-, -, rfl⟩ := append_cons_inj heq hb hb (congrArg List.length hcount)
    exact ⟨front, by rw [hfront, squeeze_blanks hblanks hb], hw⟩
termination_by rest.length

/-- No empty lines stand at the start. -/
theorem eq_nil_of_append {front back : List String} (h : Tidied ls (front ++ back))
    (hall : ∀ line ∈ front, line = "") : front = [] := by
  cases front with
  | nil => rfl
  | cons line front =>
    obtain ⟨rfl, -⟩ := List.forall_mem_cons.1 hall
    exact absurd rfl h.first

end Tidied

/-- **Lines are tidied in one way.** -/
theorem tidied_iff {rs : List String} : Tidied ls rs ↔ rs = squeeze false false ls := by
  constructor
  · intro h
    obtain hall | ⟨blanks, a, rest, rfl, ha, hblanks⟩ := eq_empty_or_exists_split ls
    · have hrs : ∀ line ∈ rs, line = "" := by
        rw [← written_eq_nil_iff, h.written, written_eq_nil_iff]
        exact hall
      rw [squeeze_of_forall_eq false false hall]
      exact Tidied.eq_nil_of_append (by rwa [List.append_nil]) hrs
    · obtain ⟨front, rfl, hfront⟩ := h.exists_split rfl ha
      rw [written_eq_nil_iff.2 hblanks, written_eq_nil_iff] at hfront
      rw [h.eq_nil_of_append hfront, squeeze_of_blanks hblanks ha, List.nil_append]
  · rintro rfl
    exact tidied_squeeze ls

/-- Lines that have been squeezed are as they are. -/
theorem squeeze_squeeze (h : gap = true → started = true) (ls : List String) :
    squeeze started false (squeeze started gap ls) = squeeze started gap ls := by
  induction ls generalizing started gap with
  | nil => rfl
  | cons line ls ih =>
    by_cases hl : line = ""
    · rw [hl, squeeze_empty]
      exact ih id
    · have hrest : squeeze true false (squeeze true false ls) = squeeze true false ls :=
        ih fun _ => rfl
      rw [squeeze_cons started gap hl]
      cases gap with
      | false =>
        simp only [Bool.false_eq_true, if_false, List.nil_append]
        rw [squeeze_cons started false hl, hrest]
        rfl
      | true =>
        -- the empty line has been kept since another one came before it
        rw [h rfl]
        simp only [if_true, List.singleton_append]
        rw [squeeze_empty, squeeze_cons true true hl, hrest]
        rfl

theorem squeeze_append_empty (started gap : Bool) (ls : List String) :
    squeeze started gap (ls ++ [""]) = squeeze started gap ls := by
  induction ls generalizing started gap with
  | nil => rfl
  | cons line ls ih =>
    by_cases h : line = ""
    · rw [h, List.cons_append, squeeze_empty, squeeze_empty, ih]
    · rw [List.cons_append, squeeze_cons started gap h, squeeze_cons started gap h, ih]

theorem eq_empty_or_mem_of_mem_squeeze (h : line ∈ squeeze started gap ls) :
    line = "" ∨ line ∈ ls := by
  by_cases hline : line = ""
  · exact .inl hline
  · have hmem : line ∈ written (squeeze started gap ls) := by simpa [written, hline] using h
    rw [written_squeeze] at hmem
    exact .inr (List.mem_of_mem_filter hmem)

/-! ## Lines of a text -/

theorem trimmedLines_eq (text : String) :
    Text.trimmedLines text = (Text.lines text).map Text.trim := by
  have htrim : Text.trim ∘ String.ofList = String.ofList ∘ Chars.trim := by
    funext cs
    simp [Text.trim]
  rw [Text.trimmedLines, Text.lines, List.map_map, htrim, ← List.map_map, Chars.map_trim_lines,
    List.map_map]
  rfl

/-- A byte order mark is no part of a story. -/
theorem lines_dropMark (text : String) : lines (Text.dropMark text) = lines text := by
  have hlines := congrArg (List.map String.ofList) (Chars.map_trim_dropMark text.toList)
  rw [List.map_map, List.map_map, ← Text.toList_dropMark] at hlines
  exact congrArg (squeeze false false) hlines

/-- **The lines of a story are the trimmed lines of its text, tidied.** -/
theorem tidied_lines_iff {text : String} {rs : List String} :
    Tidied ((Text.lines text).map Text.trim) rs ↔ rs = lines text := by
  rw [tidied_iff, lines, trimmedLines_eq]

/-- A line without white space around it, and without line feeds. -/
def IsClean (line : String) : Prop := Text.trim line = line ∧ '\n' ∉ line.toList

theorem isClean_of_mem_trimmedLines {text : String} (h : line ∈ Text.trimmedLines text) :
    IsClean line := by
  obtain ⟨piece, hpiece, rfl⟩ := List.mem_map.1 h
  refine ⟨by simp [Text.trim, Chars.trim_trim], fun hm => ?_⟩
  rw [String.toList_ofList] at hm
  exact Chars.not_mem_of_mem_splitOn hpiece (Chars.trim_subset _ hm)

/-- The lines of a story are clean. -/
theorem isClean_of_mem_lines {text : String} (h : line ∈ lines text) : IsClean line := by
  obtain rfl | h := eq_empty_or_mem_of_mem_squeeze h
  · exact ⟨by decide, by decide⟩
  · exact isClean_of_mem_trimmedLines h

/-! ## Written lines -/

theorem trimmedLines_append (front back : String) :
    Text.trimmedLines (front ++ "\n" ++ back) =
      Text.trimmedLines front ++ Text.trimmedLines back := by
  have happend : (front ++ "\n" ++ back).toList = front.toList ++ '\n' :: back.toList := by simp
  rw [Text.trimmedLines, happend, Chars.splitOn_append_cons, List.map_append]
  rfl

theorem trimmedLines_of_isClean (h : IsClean line) : Text.trimmedLines line = [line] := by
  have hone : Chars.splitOn '\n' line.toList = [line.toList] :=
    Chars.split_of_forall_not fun c hc => beq_eq_false_iff_ne.2 (ne_of_mem_of_not_mem hc h.2)
  rw [Text.trimmedLines, hone, List.map_singleton]
  exact congrArg (fun line => [line]) h.1

section
variable {pad : String} (hpad : ∀ c ∈ pad.toList, Crosspost.isBlank c = true ∧ c ≠ '\n')
include hpad

theorem trimmedLines_append_blank (text : String) :
    Text.trimmedLines (text ++ pad) = Text.trimmedLines text := by
  have hlines := congrArg (List.map String.ofList) (Chars.map_trim_append_blank hpad text.toList)
  rw [List.map_map, List.map_map, ← String.toList_append] at hlines
  exact hlines

/-- Lines are found again between line feeds, be there white space before these. -/
theorem trimmedLines_intercalate (hne : ls ≠ []) (h : ∀ line ∈ ls, IsClean line) :
    Text.trimmedLines ((pad ++ "\n").intercalate ls) = ls := by
  induction ls with
  | nil => exact absurd rfl hne
  | cons line ls ih =>
    obtain ⟨hline, hrest⟩ := List.forall_mem_cons.1 h
    cases ls with
    | nil =>
      rw [String.intercalate_singleton]
      exact trimmedLines_of_isClean hline
    | cons next ls =>
      have hsplit : (pad ++ "\n").intercalate (line :: next :: ls) =
          line ++ pad ++ "\n" ++ (pad ++ "\n").intercalate (next :: ls) := by
        simp only [String.intercalate_cons_cons, String.append_assoc]
      rw [hsplit, trimmedLines_append, trimmedLines_append_blank hpad,
        trimmedLines_of_isClean hline, ih (by simp) hrest, List.singleton_append]

end

/-- **A story that is written as plain text is read again.** -/
theorem lines_plainText (text : String) : lines (plainText (lines text)) = lines text := by
  by_cases hne : lines text = []
  · rw [hne]
    decide
  · have hreturn : ∀ c ∈ "\r".toList, Crosspost.isBlank c = true ∧ c ≠ '\n' :=
      List.forall_mem_singleton.2 (by decide)
    have hclose : plainText (lines text) =
        ("\r" ++ "\n").intercalate (lines text) ++ "\r" ++ "\n" ++ "" := by
      simp only [plainText, String.append_assoc, String.append_empty]
      rfl
    have hall : Text.trimmedLines (plainText (lines text)) = lines text ++ [""] := by
      rw [hclose, trimmedLines_append, trimmedLines_append_blank hreturn,
        trimmedLines_intercalate hreturn hne fun line => isClean_of_mem_lines]
      rfl
    rw [lines, hall, squeeze_append_empty]
    exact squeeze_squeeze id _

/-- And so are its lines with line feeds between them. -/
theorem lines_intercalate (text : String) : lines ("\n".intercalate (lines text)) = lines text := by
  by_cases hne : lines text = []
  · rw [hne]
    decide
  · have hnothing : ∀ c ∈ "".toList, Crosspost.isBlank c = true ∧ c ≠ '\n' := by simp
    have hlines := trimmedLines_intercalate hnothing hne fun line => isClean_of_mem_lines
    rw [String.empty_append] at hlines
    rw [lines, hlines]
    exact squeeze_squeeze id _

end Story

end Crosspost
