/-! # Timestamps

Instants are written in UTC with the proleptic Gregorian calendar, with the fewest fraction digits
among none, three, six and nine that are exact. -/

namespace SchemaLex

/-- Seconds since the start of 1970 and the nanoseconds after them. From a thousand million
nanoseconds on the instant lies in a leap second. -/
structure Time where
  seconds : Int
  nanoseconds : Nat
deriving DecidableEq, Repr

namespace Time

def isLeapYear (year : Nat) : Bool := year % 4 == 0 && (year % 100 != 0 || year % 400 == 0)

def daysInYear (year : Nat) : Nat := if isLeapYear year then 366 else 365

def monthLengths (leap : Bool) : List Nat :=
  [31, if leap then 29 else 28, 31, 30, 31, 30, 31, 31, 30, 31, 30, 31]

/-- The year, counted from `year` on, in which a day falls, and the day of that year. -/
def findYear : Nat → Nat → Nat → Nat × Nat
  | 0, year, day => (year, day)
  | fuel + 1, year, day =>
    if day < daysInYear year then (year, day)
    else findYear fuel (year + 1) (day - daysInYear year)

/-- The month, counted from `month` on, in which a day falls, and the day of that month. -/
def findMonth : List Nat → Nat → Nat → Nat × Nat
  | [], month, day => (month, day)
  | length :: rest, month, day =>
    if day < length then (month, day) else findMonth rest (month + 1) (day - length)

/-- The days from the start of year zero to the start of 1970. -/
def epochDays : Int := 719528

/-- The days of the four hundred years after which the calendar repeats. -/
def cycleDays : Int := 146097

/-- Year, month and day of a day counted from the start of 1970. -/
def civil (days : Int) : Int × Nat × Nat :=
  let fromZero := days + epochDays
  let (year, dayOfYear) := findYear 400 0 (fromZero.fmod cycleDays).toNat
  let (month, day) := findMonth (monthLengths (isLeapYear year)) 1 dayOfYear
  (400 * fromZero.fdiv cycleDays + year, month, day + 1)

/-- The digits of a number, with zeros before them up to a width. -/
def padded (width n : Nat) : String :=
  let digits := Nat.toDigits 10 n
  String.ofList (List.replicate (width - digits.length) '0' ++ digits)

/-- Years from zero to 9999 have four digits; all others have a sign and at least four. -/
def yearText (year : Int) : String :=
  if 0 ≤ year ∧ year ≤ 9999 then padded 4 year.toNat
  else (if year < 0 then "-" else "+") ++ padded 4 year.natAbs

def fractionText (nanoseconds : Nat) : String :=
  if nanoseconds = 0 then ""
  else if nanoseconds % 1000000 = 0 then "." ++ padded 3 (nanoseconds / 1000000)
  else if nanoseconds % 1000 = 0 then "." ++ padded 6 (nanoseconds / 1000)
  else "." ++ padded 9 nanoseconds

/-- The RFC 3339 form of an instant. -/
def stamp (t : Time) : String :=
  let (year, month, day) := civil (t.seconds.fdiv 86400)
  let ofDay := (t.seconds.fmod 86400).toNat
  let second := ofDay % 60 + t.nanoseconds / 1000000000
  yearText year ++ "-" ++ padded 2 month ++ "-" ++ padded 2 day ++ "T" ++
    padded 2 (ofDay / 3600) ++ ":" ++ padded 2 (ofDay / 60 % 60) ++ ":" ++ padded 2 second ++
    fractionText (t.nanoseconds % 1000000000) ++ "+00:00"

end Time

end SchemaLex
