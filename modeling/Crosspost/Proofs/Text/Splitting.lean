/-
  Texts cut into pieces.

  * `Chars.split_append_cons`: a text is cut at a separator, whatever stands around it;
  * `Chars.splitOn_intercalate`: pieces without separators are found again;
  * `Chars.flatMap_splitOn`: the pieces, each with a separator after it, are the text with
    one at its end;
  * `Chars.mem_splitOn_of_between`, `Chars.between_of_splitOn`: the pieces that are neither the
    first nor the last are those that stand between two separators.
-/
import Mathlib.Data.List.Basic
import Crosspost.Text.Lines

namespace Crosspost.Chars

/-! ## Pieces between any of some characters -/

theorem split_append_cons {p : Char → Bool} {c : Char} (hc : p c = true) (cs ds : List Char) :
    split p (cs ++ c :: ds) = split p cs ++ split p ds := by
  induction cs with
  | nil => simp [split, hc]
  | cons a cs ih =>
    rw [List.cons_append, split, split, ih]
    cases hs : split p cs with
    | nil => exact absurd hs (split_ne_nil p cs)
    | cons piece pieces => cases p a <;> simp

theorem split_of_forall_not {p : Char → Bool} {cs : List Char} (h : ∀ c ∈ cs, p c = false) :
    split p cs = [cs] := by
  induction cs with
  | nil => rfl
  | cons c cs ih =>
    rw [split, ih fun d hd => h d (List.mem_cons_of_mem _ hd), h c List.mem_cons_self]
    rfl

theorem forall_not_of_mem_split {p : Char → Bool} {cs piece : List Char}
    (h : piece ∈ split p cs) : ∀ c ∈ piece, p c = false := by
  induction cs generalizing piece with
  | nil => simp_all [split]
  | cons a cs ih =>
    rw [split] at h
    cases ha : p a with
    | true =>
      obtain rfl | h : piece = [] ∨ piece ∈ split p cs := by simpa [ha] using h
      · simp
      · exact ih h
    | false =>
      cases hs : split p cs with
      | nil => exact absurd hs (split_ne_nil p cs)
      | cons first pieces =>
        rw [hs] at ih
        obtain rfl | h : piece = a :: first ∨ piece ∈ pieces := by simpa [ha, hs] using h
        · exact List.forall_mem_cons.2 ⟨ha, ih List.mem_cons_self⟩
        · exact ih (List.mem_cons_of_mem _ h)

/-! ## Pieces between separators -/

variable {sep c : Char} {cs piece : List Char}

theorem splitOn_cons_self (sep : Char) (cs : List Char) :
    splitOn sep (sep :: cs) = [] :: splitOn sep cs := by
  simp [splitOn, split]

theorem splitOn_cons_of_ne (h : c ≠ sep) (cs : List Char) :
    splitOn sep (c :: cs) = (splitOn sep cs).modifyHead (c :: ·) := by
  simp [splitOn, split, h]

theorem splitOn_append_cons (sep : Char) (cs ds : List Char) :
    splitOn sep (cs ++ sep :: ds) = splitOn sep cs ++ splitOn sep ds :=
  split_append_cons (p := (· == sep)) (beq_self_eq_true sep) cs ds

theorem not_mem_of_mem_splitOn (h : piece ∈ splitOn sep cs) : sep ∉ piece := fun hm => by
  simpa using forall_not_of_mem_split h sep hm

/-- Pieces without separators are found again in the text that they make. -/
theorem splitOn_intercalate {pieces : List (List Char)} (hne : pieces ≠ [])
    (h : ∀ piece ∈ pieces, sep ∉ piece) : splitOn sep ([sep].intercalate pieces) = pieces := by
  have hpiece : ∀ piece : List Char, sep ∉ piece → splitOn sep piece = [piece] := by
    intro piece hp
    exact split_of_forall_not fun c hc => by simpa using ne_of_mem_of_not_mem hc hp
  induction pieces with
  | nil => exact absurd rfl hne
  | cons piece pieces ih =>
    cases pieces with
    | nil =>
      rw [List.intercalate_singleton]
      exact hpiece piece (h piece (by simp))
    | cons next rest =>
      rw [List.intercalate_cons_cons, List.append_assoc, List.singleton_append,
        splitOn_append_cons, hpiece piece (h piece (by simp)),
        ih (by simp) fun p hp => h p (List.mem_cons_of_mem _ hp), List.singleton_append]

/-- The pieces, each ended by a separator, are the text ended by one. -/
theorem flatMap_splitOn (sep : Char) (cs : List Char) :
    (splitOn sep cs).flatMap (· ++ [sep]) = cs ++ [sep] := by
  induction cs with
  | nil => rfl
  | cons c cs ih =>
    by_cases hc : c = sep
    · rw [hc, splitOn_cons_self, List.flatMap_cons, ih]
      rfl
    · rw [splitOn_cons_of_ne hc]
      cases hs : splitOn sep cs with
      | nil => exact absurd hs (split_ne_nil _ cs)
      | cons first pieces =>
        rw [hs, List.flatMap_cons] at ih
        rw [List.modifyHead_cons, List.flatMap_cons, List.cons_append, List.cons_append, ih]
        rfl

/-- What stands between two separators is a piece. -/
theorem mem_splitOn_of_between (hp : sep ∉ piece) (h : sep :: (piece ++ [sep]) <:+: cs) :
    piece ∈ splitOn sep cs := by
  obtain ⟨front, back, rfl⟩ := h
  have hpiece : splitOn sep piece = [piece] :=
    split_of_forall_not fun c hc => by simpa using ne_of_mem_of_not_mem hc hp
  rw [List.append_assoc, List.cons_append, splitOn_append_cons, List.append_assoc,
    List.singleton_append, splitOn_append_cons, hpiece]
  simp

/-- Pieces that are neither the first nor the last stand between separators. -/
theorem between_of_splitOn {before middle after : List (List Char)}
    (h : splitOn sep cs = before ++ (middle ++ after)) (hb : before ≠ []) (ha : after ≠ []) :
    sep :: middle.flatMap (· ++ [sep]) <:+: cs := by
  have hflat := flatMap_splitOn sep cs
  obtain ⟨before, b, rfl⟩ := (List.eq_nil_or_concat before).resolve_left hb
  obtain ⟨after, a, rfl⟩ := (List.eq_nil_or_concat after).resolve_left ha
  rw [h] at hflat
  simp only [List.concat_eq_append, List.flatMap_append, List.flatMap_singleton] at hflat
  refine ⟨before.flatMap (· ++ [sep]) ++ b, after.flatMap (· ++ [sep]) ++ a, ?_⟩
  refine List.append_cancel_right (?_ : _ ++ [sep] = cs ++ [sep])
  rw [← hflat]
  simp

/-- The first piece of a text that does not start with the separator. -/
theorem head?_splitOn_cons (h : c ≠ sep) (cs : List Char) :
    ∃ rest, (splitOn sep (c :: cs)).head? = some (c :: rest) := by
  rw [splitOn_cons_of_ne h]
  cases hs : splitOn sep cs with
  | nil => exact absurd hs (split_ne_nil _ cs)
  | cons first pieces => exact ⟨first, rfl⟩

/-- The last piece of a text that does not end with the separator. -/
theorem getLast?_splitOn_concat (h : c ≠ sep) (cs : List Char) :
    ∃ front, (splitOn sep (cs ++ [c])).getLast? = some (front ++ [c]) := by
  induction cs with
  | nil => exact ⟨[], by rw [List.nil_append, splitOn_cons_of_ne h]; rfl⟩
  | cons a cs ih =>
    obtain ⟨front, hlast⟩ := ih
    by_cases ha : a = sep
    · exact ⟨front, by rw [ha, List.cons_append, splitOn_cons_self, List.getLast?_cons, hlast]; rfl⟩
    · rw [List.cons_append, splitOn_cons_of_ne ha]
      cases hs : splitOn sep (cs ++ [c]) with
      | nil => exact absurd hs (split_ne_nil _ _)
      | cons first pieces =>
        rw [hs] at hlast
        cases pieces with
        | nil =>
          cases hlast
          exact ⟨a :: front, rfl⟩
        | cons second pieces =>
          rw [List.getLast?_cons_cons] at hlast
          exact ⟨front, by rw [List.modifyHead_cons, List.getLast?_cons_cons, hlast]⟩

/-! ## Joined pieces -/

variable {pieces front back : List (List Char)} {before after : List Char}

theorem cons_intercalate (sep : Char) (h : pieces ≠ []) :
    sep :: [sep].intercalate pieces = pieces.flatMap (sep :: ·) := by
  induction pieces with
  | nil => exact absurd rfl h
  | cons piece pieces ih =>
    cases pieces with
    | nil => simp
    | cons next rest =>
      rw [List.intercalate_cons_cons, List.flatMap_cons, ← ih (by simp)]
      simp

/-- A piece stands between the pieces before it and those after it. -/
theorem intercalate_append_cons (sep : Char) (front : List (List Char)) (piece : List Char)
    (back : List (List Char)) : [sep].intercalate (front ++ piece :: back) =
      front.flatMap (· ++ [sep]) ++ (piece ++ back.flatMap (sep :: ·)) := by
  induction front with
  | nil =>
    cases back with
    | nil => simp
    | cons next rest =>
      rw [← cons_intercalate sep (by simp), List.nil_append, List.intercalate_cons_cons]
      simp
  | cons first front ih =>
    rw [List.flatMap_cons, List.append_assoc, ← ih]
    cases front <;> simp [List.intercalate_cons_cons]

/-- What is no separator stands in one of the pieces. -/
theorem exists_piece_of_intercalate (h : [sep].intercalate pieces = before ++ c :: after)
    (hc : c ≠ sep) : ∃ front ahead behind back, pieces = front ++ (ahead ++ c :: behind) :: back ∧
      before = front.flatMap (· ++ [sep]) ++ ahead ∧
      after = behind ++ back.flatMap (sep :: ·) := by
  induction pieces generalizing before with
  | nil => simp at h
  | cons piece pieces ih =>
    cases pieces with
    | nil =>
      rw [List.intercalate_singleton] at h
      exact ⟨[], before, after, [], by simp [h], by simp, by simp⟩
    | cons next rest =>
      rw [List.intercalate_cons_cons, List.append_assoc, List.singleton_append] at h
      rcases List.append_eq_append_iff.1 h with ⟨more, rfl, hmore⟩ | ⟨more, rfl, hmore⟩
      · cases more with
        | nil => exact absurd (List.cons.inj hmore).1.symm hc
        | cons d more =>
          obtain ⟨rfl, hrest⟩ := List.cons.inj hmore
          obtain ⟨front, ahead, behind, back, hpieces, rfl, rfl⟩ := ih hrest
          exact ⟨piece :: front, ahead, behind, back, by rw [hpieces, List.cons_append], by simp,
            rfl⟩
      · cases more with
        | nil => exact absurd (List.cons.inj hmore).1 hc
        | cons d more =>
          obtain ⟨rfl, hafter⟩ := List.cons.inj hmore
          refine ⟨[], before, more, next :: rest, rfl, by simp, ?_⟩
          rw [← cons_intercalate sep (by simp)]
          exact hafter

end Crosspost.Chars
