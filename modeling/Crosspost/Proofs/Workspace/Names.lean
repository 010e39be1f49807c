/-
  The last names of paths.

  * `Path.IsName`: a name that stands for a file, and `Path.EndsIn path name`: a path whose last
    name it is;
  * `Path.endsIn_join`: **a name joined to a directory is the last name of the path**, whatever
    the directory; `Path.EndsIn.basename_eq`: it is read from the path;
  * `Path.extension_eq`, `Path.stem_eq`: the parts of a name before and after its dot;
  * `World.getLast?_destination`: where the path leads, its last name is the name.
-/
import Mathlib.Data.List.TakeWhile
import Crosspost.Proofs.Workspace.Paths

namespace Crosspost

namespace Path

variable {path name directory : String}

/-- A name that stands neither for the directory itself nor for the one around it. -/
structure IsName (name : String) : Prop where
  ne_empty : name ≠ ""
  ne_dot : name ≠ "."
  ne_dots : name ≠ ".."
  plain : IsPlain name

/-- The last name of a path. -/
def EndsIn (path name : String) : Prop := path = name ∨ ∃ directory, path = directory ++ "/" ++ name

theorem EndsIn.exists_names (h : EndsIn path name) (hn : IsName name) :
    ∃ front, names path = front ++ [name] := by
  obtain rfl | ⟨directory, rfl⟩ := h
  · exact ⟨[], names_of_isPlain hn.plain⟩
  · exact ⟨names directory, by rw [names_append_slash, names_of_isPlain hn.plain]⟩

theorem EndsIn.getLast?_ne (h : EndsIn path name) (hn : IsName name) :
    path.toList.getLast? ≠ some '/' := by
  have hlast : path.toList.getLast? = name.toList.getLast? := by
    obtain rfl | ⟨directory, rfl⟩ := h
    · rfl
    · rw [String.toList_append, List.getLast?_append_of_ne_nil]
      exact fun hnil => hn.ne_empty (String.toList_eq_nil_iff.1 hnil)
  rw [hlast]
  exact fun hslash => hn.plain (List.mem_of_getLast? hslash)

theorem endsIn_intercalate (front : List String) (name : String) :
    EndsIn ("/".intercalate (front ++ [name])) name := by
  induction front with
  | nil => exact .inl String.intercalate_singleton
  | cons first front ih =>
    have hcons : "/".intercalate (first :: front ++ [name]) =
        first ++ "/" ++ "/".intercalate (front ++ [name]) := by
      cases front <;> simp [String.intercalate_cons_cons, String.append_assoc]
    rw [hcons]
    obtain heq | ⟨directory, heq⟩ := ih
    · exact .inr ⟨first, by rw [heq]⟩
    · refine .inr ⟨first ++ "/" ++ directory, ?_⟩
      rw [heq]
      simp only [String.append_assoc]

/-- Resolving `.` and `..` keeps the last name. -/
theorem EndsIn.normalize (h : EndsIn path name) (hn : IsName name) :
    EndsIn (normalize path) name := by
  obtain ⟨front, hnames⟩ := h.exists_names hn
  have hresolve : ∃ done, resolveNames (isAbsolute path) path = done ++ [name] := by
    rw [resolveNames, hnames, List.foldl_append, List.foldl_cons, List.foldl_nil]
    generalize front.foldl _ [] = done
    exact ⟨done, by simp [hn.ne_empty, hn.ne_dot, hn.ne_dots]⟩
  obtain ⟨done, hdone⟩ := hresolve
  have htext := endsIn_intercalate done name
  have hne : "/".intercalate (done ++ [name]) ≠ "" := by
    intro hempty
    rw [hempty] at htext
    obtain heq | ⟨directory, heq⟩ := htext
    · exact hn.ne_empty heq.symm
    · simpa using congrArg String.toList heq
  have hopen : (path.toList.getLast? == some '/') = false := by
    simpa using h.getLast?_ne hn
  unfold Path.normalize
  simp only [hdone, hne, hopen, decide_false, Bool.false_and, Bool.false_eq_true, if_false]
  split_ifs
  · obtain heq | ⟨directory, heq⟩ := htext
    · exact .inr ⟨"", by rw [heq, String.empty_append]⟩
    · refine .inr ⟨"/" ++ directory, ?_⟩
      rw [heq]
      simp only [String.append_assoc]
  · exact htext

/-- **A name that is joined to a directory is the last name of the path.** -/
theorem endsIn_join (directory : String) (hn : IsName name) : EndsIn (join directory name) name := by
  unfold join
  simp only [hn.ne_empty, decide_false, Bool.and_false, Bool.false_eq_true, if_false]
  split_ifs
  · exact EndsIn.normalize (.inl rfl) hn
  · exact EndsIn.normalize (.inr ⟨directory, rfl⟩) hn

theorem EndsIn.basename_eq (h : EndsIn path name) (hn : IsName name) : basename path = name := by
  obtain ⟨front, hnames⟩ := h.exists_names hn
  simp [basename, hnames, hn.ne_empty]

/-! ## Parts of names -/

/-- The part of a name before its first dot. -/
theorem stem_eq {front back : String} (h : basename path = front ++ "." ++ back)
    (hfront : '.' ∉ front.toList) : stem path = front := by
  have hall : ∀ c ∈ front.toList, (c != '.') = true := fun c hc =>
    bne_iff_ne.2 (ne_of_mem_of_not_mem hc hfront)
  apply String.toList_injective
  simp [stem, h, List.takeWhile_append_of_pos hall]

theorem not_mem_stem (path : String) : '.' ∉ (stem path).toList := by
  intro hm
  rw [stem, String.toList_ofList] at hm
  simpa using List.mem_takeWhile_imp hm

/-- The part of a name from its last dot on, which does not open it. -/
theorem extension_eq {front back : String} (h : basename path = front ++ "." ++ back)
    (hfront : front ≠ "") (hback : '.' ∉ back.toList) (hdots : basename path ≠ "..") :
    extension path = "." ++ back := by
  have hall : ∀ c ∈ back.toList.reverse, (c != '.') = true := fun c hc =>
    bne_iff_ne.2 (ne_of_mem_of_not_mem (List.mem_reverse.1 hc) hback)
  have hafter : ((basename path).toList.reverse.takeWhile (· != '.')).reverse = back.toList := by
    simp [h, List.takeWhile_append_of_pos hall]
  have hlength : (basename path).toList.length = front.toList.length + 1 + back.toList.length := by
    simp only [h, String.toList_append, List.length_append]
    rfl
  have hpos : 0 < front.toList.length :=
    List.length_pos_iff.2 fun hnil => hfront (String.toList_eq_nil_iff.1 hnil)
  have hbefore : (basename path).toList.length - back.toList.length - 1 ≠ 0 := by omega
  unfold extension
  simp only [hafter, hdots, hbefore, decide_false, Bool.or_false, Bool.false_eq_true, if_false]
  apply String.toList_injective
  simp

end Path

/-- Where a path leads, its last name is that of the path. -/
theorem World.getLast?_destination {path name : String} (h : Path.EndsIn path name)
    (hn : Path.IsName name) (w : World) : (w.destination path).getLast? = some name := by
  obtain ⟨front, hnames⟩ := h.exists_names hn
  have hclean := Location.enter_eq_of_clean ⟨hn.ne_empty, hn.ne_dot, hn.ne_dots, hn.plain⟩
  rw [destination, hnames, Location.follow_append]
  change (Location.enter _ name).getLast? = _
  rw [hclean, List.getLast?_concat]

end Crosspost
