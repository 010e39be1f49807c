/-
  Texts as lists of code units.

  * `Chars.units` encodes a text, and `Chars.length_units` counts its units;
  * `Chars.units_prefix`: a text starts as another one does if its units do;
  * `Chars.units_prefix_drop`: so it is after any number of units, because no
    character starts with the second half of a pair.
-/
import Mathlib.Tactic.Common
import Crosspost.Text.Units

namespace Crosspost

namespace Chars

/-- The code units of a text. -/
def units (cs : List Char) : List Nat := cs.flatMap codeUnits

@[simp] theorem units_nil : units [] = [] := rfl

@[simp] theorem units_cons (c : Char) (cs : List Char) : units (c :: cs) = codeUnits c ++ units cs :=
  rfl

@[simp] theorem units_append (as bs : List Char) : units (as ++ bs) = units as ++ units bs := by
  simp [units]

@[simp] theorem length_units (cs : List Char) : (units cs).length = width cs := by
  induction cs with
  | nil => rfl
  | cons c cs ih => simp [width, length_codeUnits, ih]

theorem width_pos {cs : List Char} (h : cs ≠ []) : 0 < width cs := by
  cases cs with
  | nil => exact absurd rfl h
  | cons c cs =>
    have := unitsOf_pos c
    simp only [width]
    omega

/-! ## Single characters -/

/-- A character is a unit of its own below the surrogates or above them, or a pair. -/
theorem codeUnits_cases (c : Char) :
    (codeUnits c = [c.toNat] ∧ (c.toNat < 0xd800 ∨ 0xe000 ≤ c.toNat)) ∨
      ∃ n < 0x100000, c.toNat = 0x10000 + n ∧
        codeUnits c = [0xd800 + n / 0x400, 0xdc00 + n % 0x400] := by
  have hv : c.toNat < 0xd800 ∨ 0xdfff < c.toNat ∧ c.toNat < 0x110000 := c.valid
  unfold codeUnits
  by_cases h : c.toNat < 0x10000
  · exact .inl ⟨by simp [h], by omega⟩
  · exact .inr ⟨c.toNat - 0x10000, by omega, by omega, by simp [h]⟩

/-- Inside a pair stands its second half. -/
theorem drop_codeUnits {c : Char} {p : Nat} (h : 0 < p) (hp : p < unitsOf c) :
    ∃ u, 0xdc00 ≤ u ∧ u < 0xe000 ∧ (codeUnits c).drop p = [u] := by
  rw [← length_codeUnits] at hp
  rcases codeUnits_cases c with ⟨hc, -⟩ | ⟨n, hn, -, hc⟩
  · rw [hc, List.length_singleton] at hp
    omega
  · rw [hc] at hp ⊢
    obtain rfl : p = 1 := by
      simp only [List.length_cons, List.length_nil] at hp
      omega
    exact ⟨_, by omega, by omega, rfl⟩

/-- Of two characters with the same first units, one is the other. -/
theorem codeUnits_append_inj {c d : Char} {us vs : List Nat}
    (h : codeUnits c ++ us = codeUnits d ++ vs) : c = d ∧ us = vs := by
  rcases codeUnits_cases c with ⟨hc, hcn⟩ | ⟨m, hm, hcm, hc⟩ <;>
    rcases codeUnits_cases d with ⟨hd, hdn⟩ | ⟨n, hn, hdn, hd⟩ <;>
      rw [hc, hd] at h <;> simp only [List.cons_append, List.nil_append, List.cons.injEq] at h
  · exact ⟨Char.toNat_inj.1 h.1, h.2⟩
  · omega
  · omega
  · obtain ⟨h₁, h₂, hrest⟩ := h
    exact ⟨Char.toNat_inj.1 (by omega), hrest⟩

/-! ## Texts -/

theorem units_ne_nil {cs : List Char} (h : cs ≠ []) : units cs ≠ [] := by
  intro hu
  have := width_pos h
  rw [← length_units, hu] at this
  simp at this

/-- No text starts with the second half of a pair. -/
theorem head_units {cs : List Char} {u : Nat} {us : List Nat} (h : units cs = u :: us) :
    u < 0xdc00 ∨ 0xe000 ≤ u := by
  cases cs with
  | nil => simp at h
  | cons c cs =>
    rw [units_cons] at h
    rcases codeUnits_cases c with ⟨hc, hn⟩ | ⟨n, hn, -, hc⟩ <;> rw [hc] at h <;> cases h <;> omega

theorem units_prefix {as cs : List Char} : units as <+: units cs ↔ as <+: cs := by
  constructor
  · intro h
    induction as generalizing cs with
    | nil => exact List.nil_prefix
    | cons a as ih =>
      cases cs with
      | nil => exact absurd (List.prefix_nil.1 h) (units_ne_nil (by simp))
      | cons c cs =>
        obtain ⟨rest, hrest⟩ := h
        rw [units_cons, units_cons, List.append_assoc] at hrest
        obtain ⟨rfl, htail⟩ := codeUnits_append_inj hrest
        exact List.cons_prefix_cons.2 ⟨rfl, ih ⟨rest, htail⟩⟩
  · rintro ⟨rest, rfl⟩
    exact ⟨units rest, by simp⟩

/-- **A text stands after some units of another one if it does so after some of its
    characters.** -/
theorem units_prefix_drop {as cs : List Char} {p : Nat} (h : as ≠ []) :
    units as <+: (units cs).drop p ↔ ∃ pre rest, cs = pre ++ rest ∧ width pre = p ∧ as <+: rest := by
  constructor
  · intro ha
    induction cs generalizing p with
    | nil =>
      rw [units_nil, List.drop_nil] at ha
      exact absurd (List.prefix_nil.1 ha) (units_ne_nil h)
    | cons c cs ih =>
      rcases Nat.eq_zero_or_pos p with rfl | hp
      · exact ⟨[], c :: cs, rfl, rfl, units_prefix.1 ha⟩
      rw [units_cons, List.drop_append, length_codeUnits] at ha
      by_cases hc : unitsOf c ≤ p
      · -- the first character is passed over
        rw [List.drop_eq_nil_of_le (by rwa [length_codeUnits]), List.nil_append] at ha
        obtain ⟨pre, rest, rfl, hw, hrest⟩ := ih ha
        exact ⟨c :: pre, rest, rfl, by simp only [width]; omega, hrest⟩
      · obtain ⟨u, hu, hu', hdrop⟩ := drop_codeUnits hp (Nat.lt_of_not_le hc)
        rw [hdrop] at ha
        obtain ⟨v, vs, hv⟩ := List.exists_cons_of_ne_nil (units_ne_nil h)
        have hhead := head_units hv
        rw [hv] at ha
        have := (List.cons_prefix_cons.1 ha).1
        omega
  · rintro ⟨pre, rest, rfl, rfl, ha⟩
    rw [units_append, ← length_units pre, List.drop_left]
    exact units_prefix.2 ha

end Chars

end Crosspost
