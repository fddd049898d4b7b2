import HostGauge.Numeral

/-!
Instants of universal time and their text in the proleptic Gregorian calendar, to the second:
`2024-01-31T12:00:05Z`. A leap second is the second 60 of its minute.
-/
namespace HostGauge

/-- Seconds since the start of 1970 and nanoseconds within the second; from `10 ^ 9` on the
nanoseconds lie in a leap second that follows it. -/
structure UtcInstant where
  seconds : Int
  nanos : Nat := 0
  deriving DecidableEq, Repr, Inhabited

namespace Calendar

structure Date where
  year : Int
  month : Int
  day : Int
  deriving DecidableEq, Repr

/-- Days from the first of March of the year 0 to the first of January 1970. -/
def epochDay : Int := 719468

/-- The date of a day counted from the start of 1970. Years are counted from the first of
March, in cycles of 400 years or 146097 days. -/
def dateOfDay (day : Int) : Date :=
  let shifted := day + epochDay
  let cycle := shifted / 146097
  let dayOfCycle := shifted % 146097
  let yearOfCycle :=
    (dayOfCycle - dayOfCycle / 1460 + dayOfCycle / 36524 - dayOfCycle / 146096) / 365
  let dayOfYear := dayOfCycle - (365 * yearOfCycle + yearOfCycle / 4 - yearOfCycle / 100)
  let month := (5 * dayOfYear + 2) / 153
  let year := yearOfCycle + cycle * 400
  { year := if month < 10 then year else year + 1
    month := if month < 10 then month + 3 else month - 9
    day := dayOfYear - (153 * month + 2) / 5 + 1 }

/-- At least `width` digits. -/
def padded (width n : Nat) : List Char :=
  let digits := Numeral.write n
  List.replicate (width - digits.length) '0' ++ digits

/-- Four digits, with a sign in front where four unsigned digits do not suffice. -/
def yearText (year : Int) : List Char :=
  if 0 ≤ year && year ≤ 9999 then padded 4 year.natAbs
  else (if year < 0 then '-' else '+') :: padded 4 year.natAbs

end Calendar

namespace UtcInstant

def day (t : UtcInstant) : Int := t.seconds / 86400

def secondOfDay (t : UtcInstant) : Nat := (t.seconds % 86400).toNat

/-- The second within the minute, 60 in a leap second. -/
def secondOfMinute (t : UtcInstant) : Nat :=
  t.secondOfDay % 60 + t.nanos / 1000000000

def text (t : UtcInstant) : List Char :=
  let date := Calendar.dateOfDay t.day
  let two := Calendar.padded 2
  Calendar.yearText date.year ++ '-' :: two date.month.toNat ++ '-' :: two date.day.toNat
    ++ 'T' :: two (t.secondOfDay / 3600) ++ ':' :: two (t.secondOfDay / 60 % 60)
    ++ ':' :: two t.secondOfMinute ++ ['Z']

end UtcInstant

end HostGauge
