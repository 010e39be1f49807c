/-
  The order of texts.

  * `Text.before_iff`: texts sort by their code units, like words in a dictionary;
  * `Text.sorted_eq_of_perm`: sorted texts do not depend on the order they came in;
  * `Text.pairwise_lt_sorted`: different texts ascend strictly when they are sorted.
-/
import Mathlib.Data.List.Lex
import Mathlib.Data.List.Nodup
import Crosspost.Proofs.Text.Units

namespace Crosspost

namespace Chars

/-- Different texts have different units. -/
theorem units_injective : Function.Injective units := by
  intro as bs h
  have hab : as <+: bs := units_prefix.1 (h ▸ List.prefix_rfl)
  have hba : bs <+: as := units_prefix.1 (h ▸ List.prefix_rfl)
  exact hab.eq_of_length_le hba.length_le

end Chars

namespace Text

/-- The units of a text. -/
def units (s : String) : List Nat := Chars.units s.toList

theorem units_injective : Function.Injective units := fun _ _ h =>
  String.toList_injective (Chars.units_injective h)

theorem unitsBefore_iff {as bs : List Nat} : unitsBefore as bs = true ↔ as ≤ bs := by
  rw [← not_lt]
  induction as generalizing bs with
  | nil => exact iff_of_true (by cases bs <;> rfl) (List.not_lt_nil bs)
  | cons a as ih =>
    cases bs with
    | nil => exact iff_of_false (by simp [unitsBefore]) (not_not.2 (List.nil_lt_cons a as))
    | cons b bs =>
      rw [List.cons_lt_cons_iff, not_or, not_and, ← ih]
      simp only [unitsBefore, Bool.or_eq_true, Bool.and_eq_true, decide_eq_true_eq, beq_iff_eq]
      rcases lt_trichotomy a b with h | rfl | h
      · simp [h, h.le, h.ne']
      · simp
      · simp [h.not_gt, h.ne', h.not_ge]

/-- Texts sort by their code units. -/
theorem before_iff {a b : String} : before a b = true ↔ units a ≤ units b := unitsBefore_iff

theorem before_antisymm {a b : String} (hab : before a b = true) (hba : before b a = true) :
    a = b :=
  units_injective (le_antisymm (before_iff.1 hab) (before_iff.1 hba))

theorem sorted_perm (texts : List String) : (sorted texts).Perm texts :=
  List.mergeSort_perm texts before

theorem pairwise_sorted (texts : List String) :
    (sorted texts).Pairwise fun a b => before a b = true := by
  refine List.pairwise_mergeSort (fun a b c hab hbc => ?_) (fun a b => ?_) texts
  · exact before_iff.2 (le_trans (before_iff.1 hab) (before_iff.1 hbc))
  · rw [Bool.or_eq_true, before_iff, before_iff]
    exact le_total (units a) (units b)

/-- Sorted texts do not depend on the order they came in. -/
theorem sorted_eq_of_perm {as bs : List String} (h : as.Perm bs) : sorted as = sorted bs := by
  have hperm : (sorted as).Perm (sorted bs) :=
    (sorted_perm as).trans (h.trans (sorted_perm bs).symm)
  exact hperm.eq_of_pairwise (fun a b _ _ => before_antisymm) (pairwise_sorted as)
    (pairwise_sorted bs)

/-- Different texts ascend strictly when they are sorted. -/
theorem pairwise_lt_sorted {texts : List String} (h : texts.Nodup) :
    (sorted texts).Pairwise fun a b => units a < units b := by
  have hne : (sorted texts).Pairwise (· ≠ ·) := (sorted_perm texts).nodup_iff.2 h
  refine (pairwise_sorted texts).imp₂ (fun a b hab hne => ?_) hne
  exact lt_of_le_of_ne (before_iff.1 hab) (units_injective.ne hne)

end Text

end Crosspost
