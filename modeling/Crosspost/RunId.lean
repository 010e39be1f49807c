/-
  Run ids: the date and three random bytes.

  * `RunId.ofTime?` is the id of a run that starts at a moment.
-/
import Crosspost.Calendar

namespace Crosspost.RunId

/-- The first ten characters of a date with dashes, without the dashes. -/
def datePart (date : String) : String := .ofList ((date.toList.take 10).filter (· != '-'))

/-- A byte as two hexadecimal digits. -/
def hexByte (n : Nat) : String := .ofList [Nat.digitChar (n / 16 % 16), Nat.digitChar (n % 16)]

/-- The last moment with a date. -/
def lastMoment : Nat := 8640000000000000

/-- The id of a run that starts at a moment, with its random bytes; nothing when
    the moment has no date. -/
def ofTime? (moment : Int) (bytes : List Nat) : Option String :=
  if moment.natAbs ≤ lastMoment then
    some (datePart (Calendar.dateText moment) ++ "-" ++ String.join (bytes.map hexByte))
  else none

end Crosspost.RunId
