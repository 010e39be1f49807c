/-
  Bytes as text in base 64.

  Three bytes are four digits of six bits each. The last digits of a text may be
  followed by signs that fill up a group of four.

  * `Base64.encode` writes bytes with an alphabet;
  * `Base64.decode` reads a text. It takes both alphabets, passes over all other
    characters, and ends at the first filling sign.
-/
import Crosspost.Text.Units

namespace Crosspost.Base64

/-- The two characters that alphabets differ in, for the digits 62 and 63. -/
structure Alphabet where
  plus : Char
  slash : Char

/-- The usual alphabet. -/
def standard : Alphabet := ⟨'+', '/'⟩

/-- The alphabet for addresses and file names. -/
def urlSafe : Alphabet := ⟨'-', '_'⟩

/-- The character of a digit. -/
def Alphabet.char (a : Alphabet) (digit : Nat) : Char :=
  if digit < 26 then Char.ofNat ('A'.toNat + digit)
  else if digit < 52 then Char.ofNat ('a'.toNat + (digit - 26))
  else if digit < 62 then Char.ofNat ('0'.toNat + (digit - 52))
  else if digit = 62 then a.plus
  else a.slash

/-- The digits of bytes. -/
def digits : List UInt8 → List Nat
  | a :: b :: c :: bytes =>
    [a.toNat / 4, a.toNat % 4 * 16 + b.toNat / 16, b.toNat % 16 * 4 + c.toNat / 64,
      c.toNat % 64] ++ digits bytes
  | [a, b] => [a.toNat / 4, a.toNat % 4 * 16 + b.toNat / 16, b.toNat % 16 * 4]
  | [a] => [a.toNat / 4, a.toNat % 4 * 16]
  | [] => []

/-- Bytes written in an alphabet, without filling signs. -/
def encode (a : Alphabet) (bytes : List UInt8) : List Char := (digits bytes).map a.char

/-- Bytes written in an alphabet, with filling signs. -/
def encodeFilled (a : Alphabet) (bytes : List UInt8) : List Char :=
  let written := encode a bytes
  written ++ List.replicate ((4 - written.length % 4) % 4) '='

/-- The digit that a code unit below 128 spells, in either alphabet. -/
def digit? (unit : Nat) : Option Nat :=
  if 'A'.toNat ≤ unit && unit ≤ 'Z'.toNat then some (unit - 'A'.toNat)
  else if 'a'.toNat ≤ unit && unit ≤ 'z'.toNat then some (unit - 'a'.toNat + 26)
  else if '0'.toNat ≤ unit && unit ≤ '9'.toNat then some (unit - '0'.toNat + 52)
  else if unit = '+'.toNat || unit = '-'.toNat then some 62
  else if unit = '/'.toNat || unit = '_'.toNat then some 63
  else none

/-- The bytes of digits. Of an incomplete group the whole bytes count. -/
def ofDigits : List Nat → List UInt8
  | a :: b :: c :: d :: digits =>
    [UInt8.ofNat (a * 4 + b / 16), UInt8.ofNat (b % 16 * 16 + c / 4),
      UInt8.ofNat (c % 4 * 64 + d)] ++ ofDigits digits
  | [a, b, c] => [UInt8.ofNat (a * 4 + b / 16), UInt8.ofNat (b % 16 * 16 + c / 4)]
  | [a, b] => [UInt8.ofNat (a * 4 + b / 16)]
  | _ => []

/-- The bytes that a text spells. Of every code unit the lower byte counts. -/
def decode (cs : List Char) : List UInt8 :=
  let units := (cs.flatMap codeUnits).map (· % 0x100)
  ofDigits ((units.takeWhile (· != '='.toNat)).filterMap digit?)

end Crosspost.Base64
