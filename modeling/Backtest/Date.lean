/-!
# Calendar dates

A `Date` of the proleptic Gregorian calendar is the number of days since 1970-01-01, so dates are
compared and subtracted as numbers. `Date.ofCivil?` accepts a year, month and day that exist, in the
years from `Date.minYear` to `Date.maxYear`; `Date.civil` gives them back.

Years are counted from the first of March here, so that the day that a leap year adds is the last
one of its year; 400 such years have 146097 days, whichever they are.
-/

namespace Backtest

/-- A day of the calendar. -/
structure Date where
  /-- Days since 1970-01-01. -/
  day : Int
  deriving DecidableEq

namespace Date

instance : LT Date := ⟨fun a b => a.day < b.day⟩
instance : LE Date := ⟨fun a b => a.day ≤ b.day⟩
instance : DecidableLT Date := fun a b => inferInstanceAs (Decidable (a.day < b.day))
instance : DecidableLE Date := fun a b => inferInstanceAs (Decidable (a.day ≤ b.day))

/-- A year, a month from 1 and a day from 1. -/
structure Civil where
  year : Int
  month : Nat
  day : Nat
  deriving DecidableEq

/-- Whether February has 29 days. -/
def isLeap (year : Int) : Bool :=
  year % 4 = 0 && (year % 100 ≠ 0 || year % 400 = 0)

def monthLength (year : Int) (month : Nat) : Nat :=
  if month = 2 then (if isLeap year then 29 else 28)
  else if month = 4 ∨ month = 6 ∨ month = 9 ∨ month = 11 then 30
  else 31

def minYear : Int := -262143

def maxYear : Int := 262142

/-- The day of a civil date. -/
def ofCivil (c : Civil) : Date :=
  let y := if c.month ≤ 2 then c.year - 1 else c.year
  let era := y / 400
  let yearOfEra := y % 400
  let months : Int := if c.month ≤ 2 then c.month + 9 else (c.month : Int) - 3
  let dayOfYear := (153 * months + 2) / 5 + c.day - 1
  let dayOfEra := yearOfEra * 365 + yearOfEra / 4 - yearOfEra / 100 + dayOfYear
  ⟨era * 146097 + dayOfEra - 719468⟩

def civil (d : Date) : Civil :=
  let z := d.day + 719468
  let era := z / 146097
  let dayOfEra := z % 146097
  let yearOfEra := (dayOfEra - dayOfEra / 1460 + dayOfEra / 36524 - dayOfEra / 146096) / 365
  let dayOfYear := dayOfEra - (365 * yearOfEra + yearOfEra / 4 - yearOfEra / 100)
  let months := (5 * dayOfYear + 2) / 153
  let month := if months < 10 then months + 3 else months - 9
  let y := yearOfEra + era * 400
  ⟨if month ≤ 2 then y + 1 else y, month.toNat, (dayOfYear - (153 * months + 2) / 5 + 1).toNat⟩

/-- The day of a year, month and day, if there is one. -/
def ofCivil? (c : Civil) : Option Date :=
  if minYear ≤ c.year && c.year ≤ maxYear && 1 ≤ c.month && c.month ≤ 12 &&
      1 ≤ c.day && c.day ≤ monthLength c.year c.month then
    some (ofCivil c)
  else none

def next (d : Date) : Date := ⟨d.day + 1⟩

/-- The days from one date to another. -/
def daysUntil (a b : Date) : Int := b.day - a.day

/-- A natural number with zeros in front, up to a width. -/
def padded (width n : Nat) : String :=
  let ds := Nat.toDigits 10 n
  String.ofList (List.replicate (width - ds.length) '0' ++ ds)

/-- The date as `YYYY-MM-DD`. A year that does not have four digits carries its sign. -/
def text (d : Date) : String :=
  let c := d.civil
  let year :=
    if 0 ≤ c.year ∧ c.year ≤ 9999 then padded 4 c.year.natAbs
    else (if c.year < 0 then "-" else "+") ++ padded 4 c.year.natAbs
  year ++ "-" ++ padded 2 c.month ++ "-" ++ padded 2 c.day

end Date

end Backtest
