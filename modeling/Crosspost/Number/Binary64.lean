/-
  Whole numbers as double-precision numbers, and their shortest decimals.

  * `Binary64.round` rounds a natural number to the nearest one with 53
    significant bits, a tie to the even neighbour; from 2^1024 on there is none;
    `Binary64.nearest` does the same for integers;
  * `Binary64.shortest` is the decimal with the fewest digits that rounds back,
    and `Binary64.text` writes it, positional up to 21 digits.
-/
namespace Crosspost.Binary64

/-- The number of significant bits. -/
def precision : Nat := 53

/-- The first number that is too large. -/
def overflow : Nat := Nat.pow 2 1024

/-- The exponent of the unit of `n`: significands are below `2 ^ precision`. -/
def unitExponent (n : Nat) : Nat := n.log2 + 1 - precision

/-- The nearest double to a natural number, as a natural number; nothing when
    it is too large. -/
def round (n : Nat) : Option Nat :=
  let e := unitExponent n
  let unit := Nat.pow 2 e
  let q := n / unit
  let r := n % unit
  let up := unit < 2 * r || (2 * r == unit && q % 2 == 1)
  let v := (if up then q + 1 else q) * unit
  if v < overflow then some v else none

/-- The nearest double to an integer. One that is too large stays as it is. -/
def nearest (n : Int) : Int :=
  match round n.natAbs with
  | some v => n.sign * v
  | none => n

/-- The multiples of `step` next to `v` that round to the double `v`, the
    nearer one first. -/
def neighbours (v step : Nat) : List Nat :=
  let low := v / step * step
  let high := low + step
  let both := if v - low ≤ high - v then [low, high] else [high, low]
  both.filter fun d => round d == some v

/-- The decimal with the fewest significant digits that rounds to the double
    `v`, looked for among the multiples of `10 ^ k`, `10 ^ (k - 1)`, …. -/
def shortestFrom (v : Nat) : (k : Nat) → Nat
  | 0 => v
  | k + 1 => ((neighbours v (Nat.pow 10 (k + 1))).find? (0 < ·)).getD (shortestFrom v k)

/-- The decimal with the fewest significant digits that rounds to the double
    `v`, and of those the nearest to it. -/
def shortest (v : Nat) : Nat := shortestFrom v (toString v).length

/-- Digits without the zeros at their end. -/
def significant (digits : List Char) : List Char := (digits.reverse.dropWhile (· == '0')).reverse

/-- A double that is a natural number, written out: all digits up to 21, then
    one digit, the others after a point, and the exponent. -/
def text (v : Nat) : String :=
  let digits := (toString (shortest v)).toList
  if digits.length ≤ 21 then .ofList digits
  else
    let fraction := (significant digits).drop 1
    let point := if fraction.isEmpty then [] else ['.']
    .ofList (digits.take 1 ++ point ++ fraction) ++ "e+" ++ toString (digits.length - 1)

/-- The text of an integer that is held as a double; nothing when it is too
    large. -/
def textOf? (n : Int) : Option String :=
  (round n.natAbs).map fun v => if n < 0 then "-" ++ text v else text v

end Crosspost.Binary64
