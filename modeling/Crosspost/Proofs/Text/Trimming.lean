/-
  Laws of trimming.

  * `Text.Trimmed`: a text with something in it and no white space around that;
  * `Text.trim_trim`: trimmed text stays as it is;
  * `Chars.trim_append_of_blank`: white space around a text goes with the trimming, and
    `Chars.exists_append_trim`: nothing else does;
  * `Text.isBlank_trimStart`, `Text.isBlank_trimEnd`: trimming keeps whatever is not
    blank.
-/
import Mathlib.Data.List.DropRight
import Crosspost.Text.Blank

namespace Crosspost

namespace Chars

theorem trimStart_trimStart (cs : List Char) : trimStart (trimStart cs) = trimStart cs :=
  List.dropWhile_idempotent isBlank cs

theorem trimEnd_trimEnd (cs : List Char) : trimEnd (trimEnd cs) = trimEnd cs :=
  List.rdropWhile_idempotent isBlank cs

/-- What does not start with white space does not do so without its end. -/
theorem trimStart_trimEnd_of_eq {cs : List Char} (h : trimStart cs = cs) :
    trimStart (trimEnd cs) = trimEnd cs := by
  rw [trimStart, List.dropWhile_eq_self_iff] at h ⊢
  intro hl
  have hp : trimEnd cs <+: cs := List.rdropWhile_prefix isBlank cs
  rw [hp.getElem hl]
  exact h (Nat.lt_of_lt_of_le hl hp.length_le)

theorem trim_trim (cs : List Char) : trim (trim cs) = trim cs := by
  unfold trim
  rw [trimStart_trimEnd_of_eq (trimStart_trimStart cs), trimEnd_trimEnd]

theorem trimStart_subset (cs : List Char) : trimStart cs ⊆ cs := (List.dropWhile_suffix _).subset

theorem trimEnd_subset (cs : List Char) : trimEnd cs ⊆ cs := by
  intro c hc
  rw [trimEnd, List.mem_reverse] at hc
  exact List.mem_reverse.1 (trimStart_subset _ hc)

/-- Trimming leaves characters out. -/
theorem trim_subset (cs : List Char) : trim cs ⊆ cs :=
  List.Subset.trans (trimEnd_subset _) (trimStart_subset cs)

/-- Characters without white space before them. -/
theorem not_isBlank_of_trimStart {cs : List Char} {c : Char} (h : trimStart (c :: cs) = c :: cs) :
    isBlank c = false := by
  have hc := List.dropWhile_eq_self_iff.1 h (by simp)
  simpa using hc

theorem trimStart_trim (cs : List Char) : trimStart (trim cs) = trim cs :=
  trimStart_trimEnd_of_eq (trimStart_trimStart cs)

theorem trim_first {cs rest : List Char} {c : Char} (h : trim cs = c :: rest) :
    isBlank c = false :=
  not_isBlank_of_trimStart (h ▸ trimStart_trim cs)

theorem trim_last {cs front : List Char} {c : Char} (h : trim cs = front ++ [c]) :
    isBlank c = false := by
  have hend : trimEnd (trim cs) = trim cs := trimEnd_trimEnd (trimStart cs)
  rw [h, trimEnd, List.reverse_concat, List.reverse_eq_iff, List.reverse_concat] at hend
  exact not_isBlank_of_trimStart hend

/-- Characters without white space at either end stay as they are. -/
theorem trim_of_ends {cs : List Char} (hs : ∀ c ∈ cs.head?, isBlank c = false)
    (he : ∀ c ∈ cs.getLast?, isBlank c = false) : trim cs = cs := by
  have hstart : ∀ cs : List Char, (∀ c ∈ cs.head?, isBlank c = false) → trimStart cs = cs := by
    intro cs hcs
    cases cs with
    | nil => rfl
    | cons c cs => exact trimStart_cons_of_not_blank (by simp [hcs c rfl]) cs
  rw [trim, trimEnd, hstart cs hs, hstart, List.reverse_reverse]
  rwa [List.head?_reverse]

theorem trim_of_forall_not {cs : List Char} (h : ∀ c ∈ cs, isBlank c = false) :
    trim cs = cs :=
  trim_of_ends (fun c hc => h c (List.mem_of_head? hc)) fun c hc => h c (List.mem_of_getLast? hc)

/-- Trimmed characters are a part of the characters. -/
theorem trim_part (cs : List Char) : trim cs <:+: cs := by
  have hstart : trimStart cs <:+ cs := List.dropWhile_suffix isBlank
  have hend : trim cs <+: trimStart cs := List.rdropWhile_prefix isBlank (trimStart cs)
  exact hend.isInfix.trans hstart.isInfix

theorem trimStart_append_of_blank {lead : List Char} (h : ∀ c ∈ lead, isBlank c = true)
    (cs : List Char) : trimStart (lead ++ cs) = trimStart cs :=
  List.dropWhile_append_of_pos h

/-- White space around a text goes with the trimming. -/
theorem trim_append_of_blank {lead tail : List Char} (hl : ∀ c ∈ lead, isBlank c = true)
    (ht : ∀ c ∈ tail, isBlank c = true) (cs : List Char) :
    trim (lead ++ (cs ++ tail)) = trim cs := by
  have hend : ∀ ds : List Char, trimEnd (ds ++ tail) = trimEnd ds := by
    intro ds
    rw [trimEnd, trimEnd, List.reverse_append,
      trimStart_append_of_blank fun c hc => ht c (List.mem_reverse.1 hc)]
  rw [trim, trim, trimStart_append_of_blank hl]
  cases hs : trimStart cs with
  | nil =>
    have hblank : (cs ++ tail).all isBlank = true := by
      rw [List.all_append, (trimStart_eq_nil_iff cs).1 hs, List.all_eq_true.2 ht, Bool.true_and]
    rw [(trimStart_eq_nil_iff (cs ++ tail)).2 hblank]
  | cons c ds =>
    have hc : trimStart (cs ++ tail) = c :: ds ++ tail := by
      unfold trimStart at hs ⊢
      rw [List.dropWhile_append, hs]
      rfl
    rw [hc, hend]

theorem trim_append_of_blank_end {tail : List Char} (h : ∀ c ∈ tail, isBlank c = true)
    (cs : List Char) : trim (cs ++ tail) = trim cs :=
  trim_append_of_blank (fun _ => nofun : ∀ c ∈ [], isBlank c = true) h cs

/-- Trimming takes nothing but white space away. -/
theorem exists_append_trim (cs : List Char) :
    ∃ lead tail, cs = lead ++ (trim cs ++ tail) ∧ (∀ c ∈ lead, isBlank c = true) ∧
      ∀ c ∈ tail, isBlank c = true := by
  have hstart : cs = cs.takeWhile isBlank ++ trimStart cs :=
    List.takeWhile_append_dropWhile.symm
  have hend : trimStart cs = trim cs ++ (trimStart cs).rtakeWhile isBlank :=
    List.rdropWhile_append_rtakeWhile.symm
  refine ⟨_, _, hstart.trans (congrArg _ hend), fun c hc => List.mem_takeWhile_imp hc, ?_⟩
  exact fun c hc => List.mem_rtakeWhile_imp hc

theorem all_trimEnd (cs : List Char) : (trimEnd cs).all isBlank = cs.all isBlank := by
  rw [trimEnd, List.all_reverse, all_trimStart, List.all_reverse]

end Chars

namespace Text

/-- A text that is not empty and has no white space at its ends. -/
def Trimmed (s : String) : Prop := s ≠ "" ∧ trim s = s

theorem trim_trim (s : String) : trim (trim s) = trim s := by
  apply String.toList_injective
  simp [Chars.trim_trim]

theorem trimmed_trim {s : String} (h : trim s ≠ "") : Trimmed (trim s) := ⟨h, trim_trim s⟩

theorem trimEnd_trimStart (s : String) : trimEnd (trimStart s) = trim s := by
  apply String.toList_injective
  simp [Chars.trim]

@[simp] theorem isBlank_trimStart (s : String) : isBlank (trimStart s) = isBlank s := by
  simp [isBlank, Chars.all_trimStart]

@[simp] theorem isBlank_trimEnd (s : String) : isBlank (trimEnd s) = isBlank s := by
  simp [isBlank, Chars.all_trimEnd]

@[simp] theorem isBlank_append (a b : String) : isBlank (a ++ b) = (isBlank a && isBlank b) := by
  simp [isBlank]

end Text

end Crosspost
