/-
  Hexadecimal digits.

  * `Chars.hexDigit?` is the value of a digit in either case;
  * `Chars.hexPair` writes a byte as two digits, and `Chars.hexBytes` reads pairs
    of digits back, as far as there are any.
-/
namespace Crosspost.Chars

/-- The value of a hexadecimal digit. -/
def hexDigit? (c : Char) : Option Nat :=
  if c.isDigit then some (c.toNat - '0'.toNat)
  else if 'a' ≤ c && c ≤ 'f' then some (c.toNat - 'a'.toNat + 10)
  else if 'A' ≤ c && c ≤ 'F' then some (c.toNat - 'A'.toNat + 10)
  else none

/-- The two-digit form of a number below 256. -/
def hexPair (n : Nat) : List Char := [Nat.digitChar (n / 16), Nat.digitChar (n % 16)]

/-- The bytes of the pairs of digits that a text starts with. -/
def hexBytes : List Char → List UInt8
  | a :: b :: cs =>
    match hexDigit? a, hexDigit? b with
    | some high, some low => UInt8.ofNat (16 * high + low) :: hexBytes cs
    | _, _ => []
  | _ => []

end Crosspost.Chars
