/-
  The code units of UTF-16.

  Offsets, columns and lengths count code units, and texts sort by them: a
  character outside the basic plane is two units, a surrogate pair, and so
  sorts before U+E000.

  * `codeUnits` encodes one character, `Text.width` counts a text's units
    (`Text.width_append`), and `Text.before` is the order of texts.
-/
namespace Crosspost

/-- The code units that encode a character. -/
def codeUnits (c : Char) : List Nat :=
  let n := c.toNat
  if n < 0x10000 then [n]
  else [0xd800 + (n - 0x10000) / 0x400, 0xdc00 + (n - 0x10000) % 0x400]

namespace Chars

/-- The number of code units of a character. -/
def unitsOf (c : Char) : Nat := if c.toNat < 0x10000 then 1 else 2

/-- The number of code units of a text. -/
def width : List Char → Nat
  | [] => 0
  | c :: cs => unitsOf c + width cs

theorem length_codeUnits (c : Char) : (codeUnits c).length = unitsOf c := by
  simp only [codeUnits, unitsOf]
  split <;> rfl

theorem unitsOf_pos (c : Char) : 0 < unitsOf c := by
  simp only [unitsOf]
  split <;> omega

@[simp] theorem width_append (as bs : List Char) : width (as ++ bs) = width as + width bs := by
  induction as with
  | nil => simp [width]
  | cons a as ih => simp [width, ih, Nat.add_assoc]

end Chars

namespace Text

/-- The number of code units of a text. -/
def width (s : String) : Nat := Chars.width s.toList

@[simp] theorem width_append (a b : String) : width (a ++ b) = width a + width b := by
  simp [width]

/-- Lexicographic order of lists of code units; a shorter list comes before
    its extensions. -/
def unitsBefore : List Nat → List Nat → Bool
  | [], _ => true
  | _ :: _, [] => false
  | a :: as, b :: bs => a < b || (a == b && unitsBefore as bs)

/-- Whether a text sorts before another or equals it. -/
def before (a b : String) : Bool :=
  unitsBefore (a.toList.flatMap codeUnits) (b.toList.flatMap codeUnits)

/-- The texts in ascending order. -/
def sorted (texts : List String) : List String := texts.mergeSort before

end Text

end Crosspost
