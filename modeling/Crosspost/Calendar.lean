/-
  Dates and times of moments.

  A moment is a number of milliseconds since the start of 1970, without leap
  seconds.

  * `Calendar.civil` is the calendar date of a day, counted from 1 January 1970;
  * `Calendar.dateText` and `Calendar.stamp` are the date, and the date and time, of
    a moment.
-/
namespace Crosspost.Calendar

/-- The proleptic Gregorian date of a day, as year, month and day of the month.
    Years are counted from March on, so that a leap day ends a year, in eras of
    400 years. -/
def civil (day : Int) : Int × Nat × Nat :=
  let z := day + 719468
  let era := z / 146097
  let dayOfEra := (z - era * 146097).toNat
  let yearOfEra :=
    (dayOfEra - dayOfEra / 1460 + dayOfEra / 36524 - dayOfEra / 146096) / 365
  let dayOfYear := dayOfEra - (365 * yearOfEra + yearOfEra / 4 - yearOfEra / 100)
  let m := (5 * dayOfYear + 2) / 153
  let month := if m < 10 then m + 3 else m - 9
  (yearOfEra + era * 400 + (if month ≤ 2 then 1 else 0), month, dayOfYear - (153 * m + 2) / 5 + 1)

/-- A number with at least `width` digits. -/
def padded (width n : Nat) : String :=
  let digits := (toString n).toList
  .ofList (List.replicate (width - digits.length) '0' ++ digits)

/-- A year: four digits, or a sign and six outside 0 to 9999. -/
def yearText (year : Int) : String :=
  if 0 ≤ year && year ≤ 9999 then padded 4 year.toNat
  else (if year < 0 then "-" else "+") ++ padded 6 year.natAbs

/-- The milliseconds of a day. -/
def dayLength : Nat := 86400000

/-- The date of a moment, with dashes. -/
def dateText (moment : Int) : String :=
  let (year, month, day) := civil (moment / dayLength)
  yearText year ++ "-" ++ padded 2 month ++ "-" ++ padded 2 day

/-- The time of a moment in its day, to the millisecond. -/
def timeText (moment : Int) : String :=
  let n := (moment % dayLength).toNat
  padded 2 (n / 3600000) ++ ":" ++ padded 2 (n / 60000 % 60) ++ ":" ++
    padded 2 (n / 1000 % 60) ++ "." ++ padded 3 (n % 1000)

/-- The date and time of a moment, in universal time. -/
def stamp (moment : Int) : String := dateText moment ++ "T" ++ timeText moment ++ "Z"

end Crosspost.Calendar
