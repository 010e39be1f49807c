/-
  Whole numbers in decimal.

  * `digits?_decimal`: the digits of a number are read as that number;
  * `Binary64.round_of_lt`: a number below 2^53 is a double of its own, and no other number rounds
    to it (`Binary64.eq_of_round_eq_some`);
  * `Binary64.text_of_lt`: **the text of such a double is the number's decimal.**
-/
import Mathlib.Algebra.Group.Nat.Defs
import Mathlib.Tactic.Common
import Crosspost.Json.Fields
import Crosspost.Number.Binary64

namespace Crosspost

/-- The decimal digits of a number. -/
def decimal (n : Nat) : List Char := Nat.toDigits 10 n

theorem ofList_decimal (n : Nat) : String.ofList (decimal n) = toString n :=
  Nat.toString_eq_ofList_toDigits.symm

theorem decimal_ne_nil (n : Nat) : decimal n ≠ [] := Nat.toDigits_ne_nil

theorem isDigit_of_mem_decimal {n : Nat} {c : Char} (h : c ∈ decimal n) : c.isDigit = true :=
  Nat.isDigit_of_mem_toDigits (by decide) (by decide) h

/-- The digits of a number are read as that number. -/
theorem digits?_decimal (n : Nat) : digits? (decimal n) = some n := by
  have hread : (decimal n).foldl (fun n c => 10 * n + (c.toNat - '0'.toNat)) 0 = n :=
    Nat.ofDigitChars_toDigits (by decide) (by decide)
  have hdigits : (decimal n).all Char.isDigit = true :=
    List.all_eq_true.2 fun c => isDigit_of_mem_decimal
  rw [digits?, hread, hdigits, if_neg]
  simp [decimal_ne_nil]

theorem decimal_injective : Function.Injective decimal := by
  intro m n h
  have hread := congrArg digits? h
  rw [digits?_decimal, digits?_decimal] at hread
  exact Option.some.inj hread

theorem toString_injective : Function.Injective (toString : Nat → String) := by
  intro m n h
  rw [← ofList_decimal, ← ofList_decimal] at h
  exact decimal_injective (String.ofList_injective h)

namespace Binary64

variable {v d : Nat}

theorem unitExponent_of_lt (h : v < 2 ^ 53) : unitExponent v = 0 := by
  by_cases hv : v = 0
  · rw [hv]
    rfl
  · have hlog : v.log2 < 53 := (Nat.log2_lt hv).2 h
    rw [unitExponent, precision]
    omega

/-- A number below 2^53 is a double. -/
theorem round_of_lt (h : v < 2 ^ 53) : round v = some v := by
  have hbound : v < overflow := by
    unfold overflow
    generalize he : 1024 = e
    exact Nat.lt_of_lt_of_le h (Nat.pow_le_pow_right (by decide) (by omega))
  have hunit : Nat.pow 2 0 = 1 := rfl
  rw [round, unitExponent_of_lt h, hunit, Nat.div_one, Nat.mod_one]
  simp [hbound]

/-- What rounds to a number is not smaller than that number's unit allows. -/
theorem le_of_round_eq_some {r : Nat} (h : round d = some r) :
    d / 2 ^ unitExponent d * 2 ^ unitExponent d ≤ r := by
  rw [round] at h
  split_ifs at h with hup hbound hbound
  · rw [← Option.some.inj h]
    exact Nat.mul_le_mul_right _ (Nat.le_succ _)
  · exact Nat.le_of_eq (Option.some.inj h)

/-- No other number rounds to a number below 2^53. -/
theorem eq_of_round_eq_some (h : round d = some v) (hv : v < 2 ^ 53) : d = v := by
  by_cases hd : d < 2 ^ 53
  · exact Option.some.inj ((round_of_lt hd).symm.trans h)
  · -- the multiples of the unit around `d` are at least 2^53
    have hpos : d ≠ 0 := fun hzero => hd (by omega)
    have hlog : 53 ≤ d.log2 := (Nat.le_log2 hpos).2 (Nat.le_of_not_lt hd)
    have hexp : unitExponent d + 52 = d.log2 := by
      rw [unitExponent, precision]
      omega
    have hquot : 2 ^ 52 ≤ d / 2 ^ unitExponent d := by
      rw [Nat.le_div_iff_mul_le (Nat.two_pow_pos _), ← Nat.pow_add, Nat.add_comm, hexp]
      exact Nat.log2_self_le hpos
    have hunit : 2 ≤ 2 ^ unitExponent d := Nat.le_self_pow (by omega) 2
    have hprod := Nat.mul_le_mul hquot hunit
    have hround := le_of_round_eq_some h
    omega

theorem eq_of_mem_neighbours {step : Nat} (h : d ∈ neighbours v step) (hv : v < 2 ^ 53) :
    d = v := by
  rw [neighbours, List.mem_filter, beq_iff_eq] at h
  exact eq_of_round_eq_some h.2 hv

theorem shortestFrom_of_lt (hv : v < 2 ^ 53) (k : Nat) : shortestFrom v k = v := by
  induction k with
  | zero => rfl
  | succ k ih =>
    rw [shortestFrom, ih]
    cases hfound : (neighbours v (Nat.pow 10 (k + 1))).find? (0 < ·) with
    | none => rfl
    | some d => exact eq_of_mem_neighbours (List.mem_of_find?_eq_some hfound) hv

/-- **The text of a double below 2^53 is its decimal.** -/
theorem text_of_lt (hv : v < 2 ^ 53) : text v = toString v := by
  have hlength : (toString v).toList.length ≤ 21 := by
    rw [← ofList_decimal, String.toList_ofList]
    exact (Nat.length_toDigits_le_iff (by decide) (by decide)).2 (Nat.lt_trans hv (by decide))
  rw [text, shortest, shortestFrom_of_lt hv]
  dsimp only
  rw [if_pos hlength, String.ofList_toList]

end Binary64

end Crosspost
