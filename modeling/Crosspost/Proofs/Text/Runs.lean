/-
  Runs of characters at the start of a text.

  * `Chars.Stops p`: a text that does not start with a character with `p`;
    `Chars.Stops.takeWhile_append`, `Chars.Stops.dropWhile_append`: before such a text a run of
    characters with `p` is found as it is;
  * `Chars.append_inj_of_stops`: a run and what follows it are told by the text that they make;
  * `Chars.after?_eq_some_iff`: what follows the start of a text.
-/
import Crosspost.Text.Lines

namespace Crosspost.Chars

variable {p : Char → Bool} {cs ds rest more : List Char} {c : Char}

/-- A text does not start with a character with `p`. -/
def Stops (p : Char → Bool) (cs : List Char) : Prop := ∀ c ∈ cs.head?, p c = false

theorem stops_cons (hc : p c = false) (cs : List Char) : Stops p (c :: cs) := by
  simpa [Stops] using hc

theorem Stops.takeWhile_eq_nil (h : Stops p rest) : rest.takeWhile p = [] := by
  cases rest with
  | nil => rfl
  | cons c rest => exact List.takeWhile_cons_of_neg (by simp [h c rfl])

theorem Stops.dropWhile_eq_self (h : Stops p rest) : rest.dropWhile p = rest := by
  cases rest with
  | nil => rfl
  | cons c rest => exact List.dropWhile_cons_of_neg (by simp [h c rfl])

theorem Stops.takeWhile_append (h : Stops p rest) (hcs : ∀ c ∈ cs, p c = true) :
    (cs ++ rest).takeWhile p = cs := by
  rw [List.takeWhile_append_of_pos hcs, h.takeWhile_eq_nil, List.append_nil]

theorem Stops.dropWhile_append (h : Stops p rest) (hcs : ∀ c ∈ cs, p c = true) :
    (cs ++ rest).dropWhile p = rest := by
  rw [List.dropWhile_append_of_pos hcs, h.dropWhile_eq_self]

/-- A run and what follows it are told by the text that they make. -/
theorem append_inj_of_stops (hcs : ∀ c ∈ cs, p c = true) (hds : ∀ c ∈ ds, p c = true)
    (hrest : Stops p rest) (hmore : Stops p more) (h : cs ++ rest = ds ++ more) :
    cs = ds ∧ rest = more := by
  have htake := congrArg (List.takeWhile p) h
  rw [hrest.takeWhile_append hcs, hmore.takeWhile_append hds] at htake
  subst htake
  exact ⟨rfl, List.append_cancel_left h⟩

/-- The start of a text and what follows it make up the text. -/
theorem after?_eq_some_iff : after? cs ds = some rest ↔ ds = cs ++ rest := by
  induction cs generalizing ds with
  | nil => simp [after?, eq_comm]
  | cons c cs ih =>
    cases ds with
    | nil => simp [after?]
    | cons d ds =>
      by_cases hcd : c = d
      · rw [after?, if_pos hcd, ih, hcd, List.cons_append, List.cons_inj_right]
      · rw [after?, if_neg hcd]
        simp [Ne.symm hcd]

end Crosspost.Chars
