/-
  Laws of lower case.

  * `toNat_of_isBlank`, `toNat_of_isAlphanum`: white space is apart from letters and digits;
  * `Chars.lower_of_ascii`: ASCII characters are lowered one by one, and `toLower_toLower`:
    once and for all;
  * `Chars.forall_mem_lower`: no other character has a lower-case form below the letter `a`, so
    that none becomes a bracket.
-/
import Mathlib.Tactic.Common
import Crosspost.Text.Blank
import Crosspost.Text.LowerCase

namespace Crosspost

/-! ## Places of characters -/

theorem toNat_of_isBlank {c : Char} (h : isBlank c = true) : c.toNat ≤ 32 ∨ 160 ≤ c.toNat := by
  unfold isBlank at h
  simp only [Bool.or_eq_true, Bool.and_eq_true, decide_eq_true_eq, beq_iff_eq] at h
  rcases h with
    ((((((((((⟨-, h⟩ | rfl) | rfl) | rfl) | ⟨h, -⟩) | rfl) | rfl) | rfl) | rfl) | rfl) | rfl)
  · exact .inl (Nat.le_trans (show c.toNat ≤ 13 from h) (by decide))
  · exact .inl (by decide)
  · exact .inr (by decide)
  · exact .inr (by decide)
  · exact .inr (Nat.le_trans (by decide) (show 0x2000 ≤ c.toNat from h))
  all_goals exact .inr (by decide)

theorem toNat_of_isAlphanum {c : Char} (h : c.isAlphanum = true) :
    48 ≤ c.toNat ∧ c.toNat ≤ 122 := by
  have hc : ((decide (65 ≤ c.val ∧ c.val ≤ 90) || (decide (97 ≤ c.val) && decide (c.val ≤ 122))) ||
      (decide (48 ≤ c.val) && decide (c.val ≤ 57))) = true := h
  simp only [Bool.or_eq_true, Bool.and_eq_true, decide_eq_true_eq, UInt32.le_iff_toNat_le] at hc
  change (65 ≤ c.toNat ∧ c.toNat ≤ 90 ∨ 97 ≤ c.toNat ∧ c.toNat ≤ 122) ∨
    48 ≤ c.toNat ∧ c.toNat ≤ 57 at hc
  omega

theorem not_isBlank_of_isAlpha {c : Char} (h : c.isAlpha = true) : isBlank c = false := by
  rw [Bool.eq_false_iff]
  intro hb
  have hc : c.isAlphanum = true := by rw [Char.isAlphanum, h, Bool.true_or]
  have hblank := toNat_of_isBlank hb
  have := toNat_of_isAlphanum hc
  omega

/-! ## Single characters -/

theorem toNat_toLower_of_upper {c : Char} (h : 65 ≤ c.toNat ∧ c.toNat ≤ 90) :
    c.toLower.toNat = c.toNat + 32 := by
  have hval : c.val ≥ 'A'.val ∧ c.val ≤ 'Z'.val := h
  have hc : c.val.toNat = c.toNat := rfl
  have hshift : (32 : UInt32).toNat = 32 := rfl
  have hlower : c.toLower.toNat = (c.val + 32).toNat := congrArg Char.toNat (dif_pos hval)
  rw [hlower, UInt32.toNat_add, hc, hshift]
  omega

theorem toLower_of_not_upper {c : Char} (h : ¬ (65 ≤ c.toNat ∧ c.toNat ≤ 90)) : c.toLower = c :=
  dif_neg h

theorem toLower_toLower (c : Char) : c.toLower.toLower = c.toLower := by
  by_cases h : 65 ≤ c.toNat ∧ c.toNat ≤ 90
  · have := toNat_toLower_of_upper h
    exact toLower_of_not_upper (by omega)
  · rw [toLower_of_not_upper h, toLower_of_not_upper h]

/-- A lower-case letter of ASCII is the form of itself and of its capital. -/
theorem toLower_eq_iff {c lower upper : Char} (hu : 65 ≤ upper.toNat ∧ upper.toNat ≤ 90)
    (hl : lower.toNat = upper.toNat + 32) : c.toLower = lower ↔ c = lower ∨ c = upper := by
  constructor
  · intro h
    by_cases hc : 65 ≤ c.toNat ∧ c.toNat ≤ 90
    · have hshift := toNat_toLower_of_upper hc
      rw [h] at hshift
      exact .inr (Char.toNat_inj.1 (by omega))
    · exact .inl (toLower_of_not_upper hc ▸ h)
  · rintro (rfl | rfl)
    · exact toLower_of_not_upper (by omega)
    · exact Char.toNat_inj.1 ((toNat_toLower_of_upper hu).trans hl.symm)

/-- What is lowered beyond ASCII is a letter then, or is as it was. -/
theorem lowerSimple_cases (c : Char) :
    lowerSimple c = c ∨ lowerSimple c = c.toLower ∨ 97 ≤ (lowerSimple c).toNat := by
  have hruns : ∀ run ∈ CaseTable.lowerRuns, 97 ≤ (run.first : Int) + run.shift ∧
      (run.last : Int) + run.shift < 0xd800 ∨
        0xe000 ≤ (run.first : Int) + run.shift ∧ (run.last : Int) + run.shift < 0x110000 := by
    decide +kernel
  unfold lowerSimple
  split_ifs
  · exact .inr (.inl rfl)
  · split
    · next run hrun =>
      right
      right
      have hc := List.find?_some hrun
      simp only [CaseTable.Run.contains, Bool.and_eq_true, decide_eq_true_eq] at hc
      obtain ⟨⟨hfirst, hlast⟩, -⟩ := hc
      have hm := hruns run (List.mem_of_find?_eq_some hrun)
      have hvalid : ((c.toNat : Int) + run.shift).toNat.isValidChar := by
        unfold Nat.isValidChar
        omega
      rw [Char.ofNat, dif_pos hvalid]
      change 97 ≤ ((c.toNat : Int) + run.shift).toNat
      omega
    · exact .inl rfl

/-! ## Texts -/

namespace Chars

theorem lowerAfter_of_ascii (before : List Char) {cs : List Char}
    (h : ∀ c ∈ cs, c.toNat < 0x80) : lowerAfter before cs = cs.map Char.toLower := by
  induction cs generalizing before with
  | nil => rfl
  | cons c cs ih =>
    have hc := h c List.mem_cons_self
    have hsigma : c ≠ 'Σ' := by
      rintro rfl
      exact absurd hc (by decide)
    have hdot : c ≠ 'İ' := by
      rintro rfl
      exact absurd hc (by decide)
    rw [lowerAfter, ih _ fun d hd => h d (List.mem_cons_of_mem _ hd), if_neg hsigma, if_neg hdot,
      lowerSimple, if_pos hc]
    rfl

/-- ASCII characters are lowered one by one. -/
theorem lower_of_ascii {cs : List Char} (h : ∀ c ∈ cs, c.toNat < 0x80) :
    lower cs = cs.map Char.toLower :=
  lowerAfter_of_ascii [] h

/-- Lower-case forms are letters, or what is written. -/
theorem forall_mem_lower {P : Char → Prop} (hletter : ∀ c : Char, 97 ≤ c.toNat → P c)
    {cs : List Char} (h : ∀ c ∈ cs, P c) : ∀ c ∈ lower cs, P c := by
  have hsimple : ∀ c, P c → P (lowerSimple c) := by
    intro c hc
    rcases lowerSimple_cases c with he | he | he
    · rwa [he]
    · rw [he]
      by_cases hupper : 65 ≤ c.toNat ∧ c.toNat ≤ 90
      · have := toNat_toLower_of_upper hupper
        exact hletter _ (by omega)
      · rwa [toLower_of_not_upper hupper]
    · exact hletter _ he
  have hafter : ∀ before, ∀ c ∈ lowerAfter before cs, P c := by
    induction cs with
    | nil => simp [lowerAfter]
    | cons d cs ih =>
      intro before c hc
      have hd := h d List.mem_cons_self
      rw [lowerAfter, List.mem_append] at hc
      rcases hc with hc | hc
      · split_ifs at hc
        · exact List.mem_singleton.1 hc ▸ hletter _ (by decide)
        · exact List.mem_singleton.1 hc ▸ hletter _ (by decide)
        · rcases List.mem_cons.1 hc with rfl | hc
          · exact hletter _ (by decide)
          · exact List.mem_singleton.1 hc ▸ hletter _ (by decide)
        · exact List.mem_singleton.1 hc ▸ hsimple d hd
      · exact ih (fun c hc => h c (List.mem_cons_of_mem _ hc)) _ c hc
  exact hafter []

end Chars

end Crosspost
