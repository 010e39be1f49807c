/-
  Texts of code points.

  An escape in a JSON text may stand for half of a surrogate pair. Such a text is
  a list of code points: characters, and surrogates that stand alone.

  * `CodePoints.ofString` takes the characters of a text, and `CodePoints.text`
    makes characters of pairs and shows every other surrogate as the replacement
    character (`CodePoints.text_ofString`);
  * `CodePoints.plain?` is the text of code points without surrogates.
-/
import Crosspost.Text.Blank

namespace Crosspost

/-- A character, or a surrogate that stands alone. -/
inductive CodePoint where
  | char (c : Char)
  | surrogate (unit : Nat)
  deriving DecidableEq, Repr

namespace CodePoint

/-- Whether a code unit is the first half of a pair. -/
def isHigh (unit : Nat) : Bool := 0xd800 ≤ unit && unit < 0xdc00

/-- Whether a code unit is the second half of a pair. -/
def isLow (unit : Nat) : Bool := 0xdc00 ≤ unit && unit < 0xe000

/-- The code point of a single code unit. -/
def ofUnit (unit : Nat) : CodePoint :=
  if isHigh unit || isLow unit then surrogate unit else char (Char.ofNat unit)

/-- The character of a pair of surrogates. -/
def pair (high low : Nat) : Char :=
  Char.ofNat (0x10000 + (high - 0xd800) * 0x400 + (low - 0xdc00))

/-- The character that shows a code point. -/
def shown : CodePoint → Char
  | char c => c
  | surrogate _ => '\ufffd'

/-- The character that a code point is. -/
def char? : CodePoint → Option Char
  | char c => some c
  | surrogate _ => none

/-- Whether a code point is a character with `p`. -/
def has (p : Char → Bool) : CodePoint → Bool
  | char c => p c
  | surrogate _ => false

end CodePoint

/-- A text of code points. -/
abbrev CodePoints := List CodePoint

namespace CodePoints

/-- The characters of a text. -/
def ofString (s : String) : CodePoints := s.toList.map .char

instance : Coe String CodePoints := ⟨ofString⟩

/-- The code points with every pair of surrogates joined to a character. -/
def join : CodePoints → CodePoints
  | [] => []
  | .surrogate high :: .surrogate low :: ps =>
    if CodePoint.isHigh high && CodePoint.isLow low then
      .char (CodePoint.pair high low) :: join ps
    else .surrogate high :: join (.surrogate low :: ps)
  | p :: ps => p :: join ps

/-- The text of code points: pairs of surrogates are characters, and the others
    are shown as the replacement character. -/
def text (ps : CodePoints) : String := .ofList ((join ps).map CodePoint.shown)

/-- The text of code points without surrogates. -/
def plain? (ps : CodePoints) : Option String :=
  (ps.mapM CodePoint.char?).map String.ofList

/-- The code points without white space at either end. -/
def trim (ps : CodePoints) : CodePoints :=
  let started := ps.dropWhile (CodePoint.has isBlank)
  (started.reverse.dropWhile (CodePoint.has isBlank)).reverse

/-- Whether there is nothing but white space. -/
def isBlank (ps : CodePoints) : Bool := ps.all (CodePoint.has Crosspost.isBlank)

/-- The code points without the characters that have `p`. -/
def without (p : Char → Bool) (ps : CodePoints) : CodePoints := ps.filter (!CodePoint.has p ·)

theorem join_map_char (cs : List Char) : join (cs.map CodePoint.char) = cs.map CodePoint.char := by
  induction cs with
  | nil => rfl
  | cons c cs ih => rw [List.map_cons, join, ih]; simp

@[simp] theorem text_ofString (s : String) : text (ofString s) = s := by
  simp [text, ofString, join_map_char, CodePoint.shown, Function.comp_def]

@[simp] theorem without_ofString (p : Char → Bool) (s : String) :
    without p (ofString s) = ofString (.ofList (s.toList.filter (!p ·))) := by
  simp [without, ofString, List.filter_map, CodePoint.has, Function.comp_def]

end CodePoints

end Crosspost
