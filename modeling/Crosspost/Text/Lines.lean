/-
  Texts cut into pieces.

  * `Chars.endsLine` are the characters that end lines;
  * `Chars.split p` cuts a text at every character with `p`, and
    `Chars.splitOn c` at every `c`; the pieces with `c` between them are the text
    again (`Chars.intercalate_splitOn`);
  * `Text.trimmedLines` are the lines of a text, trimmed;
  * `Chars.replace` puts one text in the place of every occurrence of another.
-/
import Crosspost.Text.Blank

namespace Crosspost

namespace Chars

/-- Whether a character ends a line. -/
def endsLine (c : Char) : Bool := c == '\n' || c == '\r' || c == '\u2028' || c == '\u2029'

/-- The pieces of a text between the characters with `p`; there is always a
    first piece. -/
def split (p : Char → Bool) : List Char → List (List Char)
  | [] => [[]]
  | c :: cs => if p c then [] :: split p cs else (split p cs).modifyHead (c :: ·)

/-- The pieces of a text between the occurrences of a character. -/
def splitOn (sep : Char) (cs : List Char) : List (List Char) := split (· == sep) cs

theorem split_ne_nil (p : Char → Bool) (cs : List Char) : split p cs ≠ [] := by
  induction cs with
  | nil => simp [split]
  | cons c cs ih =>
    simp only [split]
    split
    · simp
    · cases h : split p cs with
      | nil => exact absurd h ih
      | cons _ _ => simp

theorem intercalate_splitOn (sep : Char) (cs : List Char) :
    [sep].intercalate (splitOn sep cs) = cs := by
  induction cs with
  | nil => rfl
  | cons c cs ih =>
    simp only [splitOn] at ih ⊢
    have hne := split_ne_nil (· == sep) cs
    cases h : split (· == sep) cs with
    | nil => exact absurd h hne
    | cons piece pieces =>
      rw [h] at ih
      by_cases hc : c = sep
      · subst hc
        simp [split, h, ih]
      · cases pieces with
        | nil => simp_all [split]
        | cons _ _ => simp_all [split]

/-- What follows `head` in a text that starts with it. -/
def after? : (head text : List Char) → Option (List Char)
  | [], text => some text
  | _ :: _, [] => none
  | h :: hs, c :: cs => if h = c then after? hs cs else none

/-- The text `cs` with `new` in the place of every occurrence of `old`, found
    from left to right; `skip` characters of the occurrence found last are
    still to be passed over. -/
def replaceFrom (old new : List Char) : (skip : Nat) → List Char → List Char
  | _, [] => []
  | skip + 1, _ :: cs => replaceFrom old new skip cs
  | 0, c :: cs =>
    if (after? old (c :: cs)).isSome then new ++ replaceFrom old new (old.length - 1) cs
    else c :: replaceFrom old new 0 cs

/-- The text with `new` in the place of every occurrence of the non-empty text
    `old`, found from left to right. -/
def replace (old new cs : List Char) : List Char := replaceFrom old new 0 cs

end Chars

namespace Text

/-- The pieces of a text between the occurrences of a character. -/
def splitOn (sep : Char) (s : String) : List String :=
  (Chars.splitOn sep s.toList).map String.ofList

/-- The lines of a text, each trimmed. A line ends at a line feed; a carriage
    return before it is white space and goes with the trimming. -/
def trimmedLines (s : String) : List String :=
  (Chars.splitOn '\n' s.toList).map fun line => .ofList (Chars.trim line)

end Text

end Crosspost
