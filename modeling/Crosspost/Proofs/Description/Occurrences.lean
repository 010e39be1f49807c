/-
  Flags in the order of the options.

  * `Flags.Offends option`: the option is empty or holds a character that no flag may hold, and
    `Flags.isIdentifier_eq_false_iff`: such options are refused;
  * `Flags.Lists n options chosen`: `chosen` holds once each what occurs more than `n` times
    among the options, in the order in which the occurrences number `n` come, from 0 on;
    `Flags.Lists.add` is what one more option makes of such a list;
  * `Flags.Records options flags`: the flags are listed by first occurrences, the duplicates by
    second ones; `Flags.Records.add` and `Flags.records_foldl` follow the pass over the options;
  * `Flags.ofOptions_lists`: **options are checked all together; without an offending one,
    flags come in the order of first and duplicates in the order of second occurrences**.
-/
import Mathlib.Data.List.Induction
import Mathlib.Data.List.Nodup
import Crosspost.Proofs.Description.Flagged

namespace Crosspost

/-! ## Places of occurrences -/

section
variable {α : Type} [DecidableEq α]

theorem idxOfNth_append {xs : List α} {x : α} {n : Nat} (h : n < xs.count x) (ys : List α) :
    (xs ++ ys).idxOfNth x n = xs.idxOfNth x n := by
  induction xs generalizing n with
  | nil => simp at h
  | cons a xs ih =>
    rw [List.count_cons] at h
    rw [List.cons_append, List.idxOfNth_cons, List.idxOfNth_cons]
    split_ifs with hn ha ha
    · rfl
    · rw [if_neg ha] at h
      rw [ih (by omega)]
    · rw [if_pos ha] at h
      rw [ih (by omega)]
    · rw [if_neg ha] at h
      rw [ih (by omega)]

theorem idxOfNth_concat (xs : List α) (x : α) :
    (xs ++ [x]).idxOfNth x (xs.count x) = xs.length := by
  induction xs with
  | nil => simp
  | cons a xs ih =>
    rw [List.cons_append, List.idxOfNth_cons, List.count_cons, List.length_cons]
    by_cases ha : a = x
    · simpa [ha] using ih
    · have hne : (a == x) = false := by simpa using ha
      simp only [hne, Bool.false_eq_true, if_false, Nat.add_zero]
      split_ifs with hn
      · rw [← hn, ih]
      · rw [ih]

end

namespace Flags

/-! ## Offending options -/

/-- A letter or a digit of ASCII, an underscore or a dash. -/
def IsOptionChar (c : Char) : Prop :=
  'a' ≤ c ∧ c ≤ 'z' ∨ 'A' ≤ c ∧ c ≤ 'Z' ∨ '0' ≤ c ∧ c ≤ '9' ∨ c = '_' ∨ c = '-'

instance : DecidablePred IsOptionChar := fun _ => inferInstanceAs (Decidable (_ ∨ _))

/-- An option names no flag. -/
def Offends (option : String) : Prop := option = "" ∨ ∃ c ∈ option.toList, ¬ IsOptionChar c

-- Only the characters of the option are looked at, not all characters.
instance : DecidablePred Offends := fun option =>
  have : Decidable (∃ c ∈ option.toList, ¬ IsOptionChar c) := List.decidableBEx _ _
  inferInstanceAs (Decidable (_ ∨ _))

theorem isAlphanum_iff {c : Char} : c.isAlphanum = true ↔
    ('A' ≤ c ∧ c ≤ 'Z' ∨ 'a' ≤ c ∧ c ≤ 'z') ∨ '0' ≤ c ∧ c ≤ '9' := by
  change ((decide ('A'.val ≤ c.val ∧ c.val ≤ 'Z'.val) ||
      (decide ('a'.val ≤ c.val) && decide (c.val ≤ 'z'.val))) ||
    (decide ('0'.val ≤ c.val) && decide (c.val ≤ '9'.val))) = true ↔ _
  simp only [Bool.or_eq_true, Bool.and_eq_true, decide_eq_true_eq, Char.le_def]

theorem isIdentifierChar_iff {c : Char} : isIdentifierChar c = true ↔ IsOptionChar c := by
  simp only [isIdentifierChar, IsOptionChar, Bool.or_eq_true, beq_iff_eq, isAlphanum_iff]
  tauto

theorem isIdentifier_eq_false_iff {option : String} :
    isIdentifier option = false ↔ Offends option := by
  have hempty : option.toList.isEmpty = true ↔ option = "" := by simp
  rw [isIdentifier, Bool.and_eq_false_iff, Bool.not_eq_false', hempty, List.all_eq_false, Offends]
  simp only [isIdentifierChar_iff]

/-! ## Lists of occurrences -/

/-- `chosen` holds once each what occurs more than `n` times among the options, in the order of
    the occurrences number `n`, counted from 0. -/
structure Lists (n : Nat) (options chosen : List String) : Prop where
  nodup : chosen.Nodup
  mem_iff : ∀ o, o ∈ chosen ↔ n < options.count o
  order : chosen.Pairwise fun a b => options.idxOfNth a n < options.idxOfNth b n

namespace Lists

variable {n : Nat} {options chosen : List String} {option : String}

theorem nil (n : Nat) : Lists n [] [] := ⟨.nil, by simp, .nil⟩

theorem contains_eq (h : Lists n options chosen) :
    chosen.contains option = true ↔ n < options.count option := by
  rw [List.contains_iff_mem, h.mem_iff]

/-- An option that has occurred `n` times comes at the end; another one changes nothing. -/
theorem add (h : Lists n options chosen) (option : String) :
    Lists n (options ++ [option])
      (if options.count option = n then chosen ++ [option] else chosen) := by
  have horder : chosen.Pairwise fun a b =>
      (options ++ [option]).idxOfNth a n < (options ++ [option]).idxOfNth b n := by
    refine h.order.imp_of_mem fun ha hb hab => ?_
    rwa [idxOfNth_append ((h.mem_iff _).1 ha), idxOfNth_append ((h.mem_iff _).1 hb)]
  have hcount (o : String) :
      (options ++ [option]).count o = options.count o + if option = o then 1 else 0 := by
    simp [List.count_singleton]
  split_ifs with hn
  · have hfresh : option ∉ chosen := fun hm => by
      have := (h.mem_iff option).1 hm
      omega
    refine ⟨h.nodup.append (List.nodup_singleton _) (List.disjoint_singleton.2 hfresh),
      fun o => ?_, ?_⟩
    · rw [List.mem_append, List.mem_singleton, h.mem_iff, hcount]
      by_cases ho : option = o
      · subst ho
        simp [hn]
      · simp [ho, Ne.symm ho]
    · refine List.pairwise_append.2 ⟨horder, List.pairwise_singleton _ _, fun a ha b hb => ?_⟩
      obtain rfl := List.mem_singleton.1 hb
      have hlt := (h.mem_iff a).1 ha
      rw [idxOfNth_append hlt, ← hn, idxOfNth_concat, hn]
      exact List.idxOfNth_lt_length_iff.2 hlt
  · refine ⟨h.nodup, fun o => ?_, horder⟩
    rw [h.mem_iff, hcount]
    split_ifs with ho
    · subst ho
      omega
    · rfl

end Lists

/-- Flags and duplicates are those of the options. -/
structure Records (options : List String) (flags : Flags) : Prop where
  names : Lists 0 options flags.names
  duplicates : Lists 1 options flags.duplicates

/-- What one more option adds: a flag when it comes first, and a duplicate when it comes again. -/
theorem Records.add {options : List String} {flags : Flags} (h : Records options flags)
    (option : String) : Records (options ++ [option]) (flags.add option) := by
  have hnames := h.names.add option
  have hduplicates := h.duplicates.add option
  unfold Flags.add
  split_ifs with hknown htwice
  · rw [h.names.contains_eq] at hknown
    rw [h.duplicates.contains_eq] at htwice
    rw [if_neg (by omega)] at hnames hduplicates
    exact ⟨hnames, hduplicates⟩
  · rw [h.names.contains_eq] at hknown
    rw [h.duplicates.contains_eq] at htwice
    rw [if_neg (by omega)] at hnames
    rw [if_pos (by omega)] at hduplicates
    exact ⟨hnames, hduplicates⟩
  · rw [h.names.contains_eq] at hknown
    rw [if_pos (by omega)] at hnames
    rw [if_neg (by omega)] at hduplicates
    exact ⟨hnames, hduplicates⟩

theorem records_foldl (options : List String) :
    Records options (options.foldl Flags.add ⟨[], []⟩) := by
  induction options using List.reverseRecOn with
  | nil => exact ⟨.nil 0, .nil 1⟩
  | append_singleton options option ih =>
    rw [List.foldl_append]
    exact ih.add option

/-! ## Options of a run -/

theorem ofOptions_eq_error_iff {options : List String} {e : FlagError} :
    ofOptions options = .error e ↔
      (∃ o ∈ options, Offends o) ∧ e.invalid = options.filter (Offends ·) := by
  have hfilter : options.filter (!isIdentifier ·) = options.filter (Offends ·) := by
    refine List.filter_congr fun o _ => ?_
    rw [Bool.eq_iff_iff, Bool.not_eq_true', isIdentifier_eq_false_iff, decide_eq_true_eq]
  have hempty : options.filter (Offends ·) = [] ↔ ¬ ∃ o ∈ options, Offends o := by
    simp [List.filter_eq_nil_iff]
  obtain ⟨invalid⟩ := e
  unfold ofOptions
  rw [hfilter]
  split
  · next he => simp [hempty.1 he]
  · next hne =>
    rw [Except.error.injEq, FlagError.mk.injEq, eq_comm]
    exact (and_iff_right (not_not.1 fun h => hne (hempty.2 h))).symm

/-- **Options are checked all together.** They are refused if one of them offends, with all
    offending ones in their order; otherwise each option is a flag, in the order of first
    occurrences, and each one given again is a duplicate, in the order of second occurrences. -/
theorem ofOptions_lists (options : List String) :
    ((∃ e, ofOptions options = .error e) ↔ ∃ o ∈ options, Offends o) ∧
      (∀ e, ofOptions options = .error e → e.invalid = options.filter (Offends ·)) ∧
      ∀ flags, ofOptions options = .ok flags →
        Lists 0 options flags.names ∧ Lists 1 options flags.duplicates := by
  refine ⟨⟨fun ⟨e, he⟩ => (ofOptions_eq_error_iff.1 he).1, fun h => ?_⟩,
    fun e he => (ofOptions_eq_error_iff.1 he).2, fun flags h => ?_⟩
  · exact ⟨⟨options.filter (Offends ·)⟩, ofOptions_eq_error_iff.2 ⟨h, rfl⟩⟩
  · have hrecords := records_foldl options
    rw [← (ofOptions_eq_ok_iff.1 h).2] at hrecords
    exact ⟨hrecords.names, hrecords.duplicates⟩

/-- Two options that come again in another order, and two kinds of offending ones. -/
theorem ofOptions_lists_repeated :
    (let options := ["b", "a", "c", "a", "b", "a"]
      ∃ flags, ofOptions options = .ok flags ∧ flags.names = ["b", "a", "c"] ∧
        flags.duplicates = ["a", "b"] ∧ Lists 0 options flags.names ∧
        Lists 1 options flags.duplicates) ∧
      let options := ["a b", "x", "", "x", "a b"]
      ∃ e, ofOptions options = .error e ∧ e.invalid = ["a b", "", "a b"] := by
  constructor
  · obtain ⟨-, -, hlists⟩ := ofOptions_lists ["b", "a", "c", "a", "b", "a"]
    have hok : ofOptions ["b", "a", "c", "a", "b", "a"] = .ok ⟨["b", "a", "c"], ["a", "b"]⟩ := by
      decide +kernel
    exact ⟨_, hok, rfl, rfl, hlists _ hok⟩
  · obtain ⟨hrefused, hinvalid, -⟩ := ofOptions_lists ["a b", "x", "", "x", "a b"]
    obtain ⟨e, he⟩ := hrefused.2 ⟨"a b", by simp, .inr ⟨' ', by decide, by decide⟩⟩
    exact ⟨e, he, (hinvalid e he).trans (by decide +kernel)⟩

end Flags

end Crosspost
