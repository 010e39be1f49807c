/-
  Texts in lower case.

  * `CaseTable.Run.avoids`: no letter of a run has its lower-case form in another one, and
    `CaseTable.avoids_lowerRuns`: so it is for all runs;
  * `IsLowered c`: a character is its own lower-case form, wherever it stands;
    `isLowered_lowerSimple`: the form of a single character is such a one;
  * `Text.lower_lower`: **the lower-case form of a text is its own lower-case form.**
-/
import Crosspost.Proofs.Text.LowerCase

namespace Crosspost

/-! ## Runs of letters -/

namespace CaseTable

namespace Run

/-- The lower-case form of the first letter. -/
def firstForm (a : Run) : Nat := ((a.first : Int) + a.shift).toNat

/-- The lower-case form of the last letter. -/
def lastForm (a : Run) : Nat := ((a.last : Int) + a.shift).toNat

/-- No letter of the first run has its lower-case form in the second one: the forms lie before it,
    behind it or between its letters. All pairs of runs are compared by evaluation, hence the
    test `Nat.ble`. -/
def avoids (a b : Run) : Bool :=
  (a.lastForm + 1).ble b.first || (b.last + 1).ble a.firstForm ||
    b.step == 2 && (a.step == 2 || a.first == a.last) && (a.firstForm + b.first) % 2 == 1

/-- The forms of a run are characters, and no capitals of ASCII. -/
def IsValid (a : Run) : Prop :=
  97 ≤ a.firstForm ∧ (a.lastForm < 0xd800 ∨ 0xe000 ≤ a.firstForm ∧ a.lastForm < 0x110000)

instance (a : Run) : Decidable a.IsValid := inferInstanceAs (Decidable (_ ∧ _))

theorem contains_iff {a : Run} {n : Nat} :
    a.contains n = true ↔ a.first ≤ n ∧ n ≤ a.last ∧ (n - a.first) % a.step = 0 := by
  simp [contains, and_assoc]

theorem contains_eq_false_of_avoids {a b : Run} {m n : Nat} (h : a.avoids b = true)
    (hvalid : a.IsValid) (hm : a.contains m = true) (hn : (n : Int) = m + a.shift) :
    b.contains n = false := by
  rw [Bool.eq_false_iff]
  intro hb
  obtain ⟨hfirst, hlast, hstep⟩ := contains_iff.1 hm
  obtain ⟨hfirst', hlast', hstep'⟩ := contains_iff.1 hb
  have hlow : 97 ≤ ((a.first : Int) + a.shift).toNat := hvalid.1
  simp only [avoids, firstForm, lastForm, Bool.or_eq_true, Bool.and_eq_true, Nat.ble_eq,
    beq_iff_eq] at h
  rcases h with (h | h) | ⟨⟨hb, ha | ha⟩, hodd⟩
  · omega
  · omega
  · rw [ha] at hstep
    rw [hb] at hstep'
    omega
  · rw [hb] at hstep'
    omega

end Run

theorem isValid_lowerRuns : ∀ a ∈ lowerRuns, a.IsValid := by decide +kernel

theorem avoids_lowerRuns : (lowerRuns.all fun a => lowerRuns.all a.avoids) = true := by
  decide +kernel

/-- The letter with a dot above is written out otherwise, and is the form of none. -/
theorem avoids_dotted : ∀ a ∈ lowerRuns, a.avoids ⟨'İ'.toNat, 'İ'.toNat, 1, 0⟩ = true := by
  decide +kernel

theorem contains_sigma : ∃ a ∈ lowerRuns, a.contains 'Σ'.toNat = true := by decide +kernel

end CaseTable

/-! ## Single characters -/

open CaseTable

/-- A character is its own lower-case form, wherever it stands. -/
structure IsLowered (c : Char) : Prop where
  ne_sigma : c ≠ 'Σ'
  ne_dotted : c ≠ 'İ'
  lowerSimple_eq : lowerSimple c = c

theorem isLowered_of_forall {c : Char} (hruns : ∀ a ∈ lowerRuns, a.contains c.toNat = false)
    (hdotted : c ≠ 'İ') : IsLowered c := by
  refine ⟨?_, hdotted, ?_⟩
  · rintro rfl
    obtain ⟨a, ha, hc⟩ := contains_sigma
    rw [hruns a ha] at hc
    cases hc
  · have hupper : ¬ (65 ≤ c.toNat ∧ c.toNat ≤ 90) := by
      intro h
      have hfirst := hruns ⟨0x41, 0x5a, 1, 32⟩ (.head _)
      rw [Run.contains_iff.2 ⟨h.1, h.2, Nat.mod_one _⟩] at hfirst
      cases hfirst
    have hfind : lowerRuns.find? (·.contains c.toNat) = none :=
      List.find?_eq_none.2 fun a ha => by simp [hruns a ha]
    rw [lowerSimple, hfind, toLower_of_not_upper hupper, ite_self]

/-- The lower-case form of a character in a run. -/
theorem toNat_lowerSimple {c : Char} {a : Run} (hc : ¬ c.toNat < 0x80)
    (ha : lowerRuns.find? (·.contains c.toNat) = some a) :
    ((lowerSimple c).toNat : Int) = c.toNat + a.shift := by
  have hvalid := isValid_lowerRuns a (List.mem_of_find?_eq_some ha)
  have hcontains : a.contains c.toNat = true := (List.find?_some ha :)
  obtain ⟨hfirst, hlast, -⟩ := Run.contains_iff.1 hcontains
  unfold Run.IsValid Run.firstForm Run.lastForm at hvalid
  have hchar : ((c.toNat : Int) + a.shift).toNat.isValidChar := by
    unfold Nat.isValidChar
    omega
  have hform : lowerSimple c = Char.ofNat ((c.toNat : Int) + a.shift).toNat := by
    rw [lowerSimple, if_neg hc, ha]
  rw [hform, Char.ofNat, dif_pos hchar]
  change ((((c.toNat : Int) + a.shift).toNat : Nat) : Int) = _
  omega

theorem isLowered_lowerSimple {c : Char} (hdotted : c ≠ 'İ') : IsLowered (lowerSimple c) := by
  by_cases hc : c.toNat < 0x80
  · have hform : lowerSimple c = c.toLower := by rw [lowerSimple, if_pos hc]
    have hascii : c.toLower.toNat < 0x80 := by
      by_cases hupper : 65 ≤ c.toNat ∧ c.toNat ≤ 90
      · have := toNat_toLower_of_upper hupper
        omega
      · rwa [toLower_of_not_upper hupper]
    rw [hform]
    refine ⟨?_, ?_, ?_⟩
    · intro h
      rw [h] at hascii
      exact absurd hascii (by decide)
    · intro h
      rw [h] at hascii
      exact absurd hascii (by decide)
    · rw [lowerSimple, if_pos hascii, toLower_toLower]
  · cases ha : lowerRuns.find? (·.contains c.toNat) with
    | none =>
      have hform : lowerSimple c = c := by rw [lowerSimple, if_neg hc, ha]
      rw [hform]
      exact isLowered_of_forall (fun a hmem => by simpa using List.find?_eq_none.1 ha a hmem)
        hdotted
    | some a =>
      have hform := toNat_lowerSimple hc ha
      have hmem := List.mem_of_find?_eq_some ha
      have hcontains : a.contains c.toNat = true := (List.find?_some ha :)
      have havoids {b : Run} (h : a.avoids b = true) : b.contains (lowerSimple c).toNat = false :=
        Run.contains_eq_false_of_avoids h (isValid_lowerRuns a hmem) hcontains hform
      refine isLowered_of_forall (fun b hb => havoids ?_) fun h => ?_
      · exact List.all_eq_true.1 (List.all_eq_true.1 avoids_lowerRuns a hmem) b hb
      · have hout := havoids (avoids_dotted a hmem)
        rw [h] at hout
        exact absurd hout (by decide)

/-! ## Texts -/

namespace Chars

theorem isLowered_of_mem_lowerAfter {before cs : List Char} :
    ∀ c ∈ lowerAfter before cs, IsLowered c := by
  have hsigma : IsLowered 'σ' := ⟨by decide, by decide, by decide +kernel⟩
  have hfinal : IsLowered 'ς' := ⟨by decide, by decide, by decide +kernel⟩
  have hdot : IsLowered '\u0307' := ⟨by decide, by decide, by decide +kernel⟩
  have hi : IsLowered 'i' := ⟨by decide, by decide, by decide +kernel⟩
  induction cs generalizing before with
  | nil => simp [lowerAfter]
  | cons d cs ih =>
    intro c hc
    rw [lowerAfter, List.mem_append] at hc
    rcases hc with hc | hc
    · split_ifs at hc with _ _ hdotted
      · exact List.mem_singleton.1 hc ▸ hfinal
      · exact List.mem_singleton.1 hc ▸ hsigma
      · rcases List.mem_cons.1 hc with rfl | hc
        · exact hi
        · exact List.mem_singleton.1 hc ▸ hdot
      · exact List.mem_singleton.1 hc ▸ isLowered_lowerSimple hdotted
    · exact ih c hc

theorem lowerAfter_of_isLowered {cs : List Char} (h : ∀ c ∈ cs, IsLowered c)
    (before : List Char) : lowerAfter before cs = cs := by
  induction cs generalizing before with
  | nil => rfl
  | cons c cs ih =>
    obtain ⟨hc, hcs⟩ := List.forall_mem_cons.1 h
    rw [lowerAfter, ih hcs, if_neg hc.ne_sigma, if_neg hc.ne_dotted, hc.lowerSimple_eq]
    rfl

/-- A text in lower case stays as it is. -/
theorem lower_lower (cs : List Char) : lower (lower cs) = lower cs :=
  lowerAfter_of_isLowered isLowered_of_mem_lowerAfter []

end Chars

theorem Text.lower_lower (s : String) : lower (lower s) = lower s := by
  apply String.toList_injective
  rw [toList_lower, toList_lower, Chars.lower_lower]

end Crosspost
