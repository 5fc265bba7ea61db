/-!
# The Gregorian calendar

Days are counted from 1 January of the year 1, and the calendar is followed backwards as well, with
a year 0 before the year 1.  A count of days and a date determine each other: `Date.dayNumber`
counts, and `Date.ofDayNumber` finds the year whose days include the count and then the month.
-/

namespace CommitStore

/-- A date of the Gregorian calendar. -/
structure Date where
  year : Int
  /-- From 1 to 12. -/
  month : Nat
  /-- From 1 on. -/
  day : Nat
  deriving DecidableEq

namespace Date

/-- Every fourth year is a leap year; of the full centuries only every fourth. -/
def isLeapYear (year : Int) : Bool := year % 4 = 0 && (year % 100 != 0 || year % 400 = 0)

/-- The lengths of the months of a year. -/
def monthLengths (leap : Bool) : List Nat :=
  [31, if leap then 29 else 28, 31, 30, 31, 30, 31, 31, 30, 31, 30, 31]

/-- The dates that the calendar has. -/
def IsValid (d : Date) : Prop :=
  1 ≤ d.month ∧ d.month ≤ 12 ∧ 1 ≤ d.day ∧
    d.day ≤ (monthLengths (isLeapYear d.year)).getD (d.month - 1) 0

instance (d : Date) : Decidable d.IsValid := by unfold IsValid; infer_instance

/-- The number of days before 1 January of a year. -/
def daysBeforeYear (year : Int) : Int :=
  let y := year - 1
  365 * y + y / 4 - y / 100 + y / 400

/-- The number of days from 1 January of the year 1 to a date. -/
def dayNumber (d : Date) : Int :=
  let inYear : Nat := ((monthLengths (isLeapYear d.year)).take (d.month - 1)).foldr (· + ·) 0
  daysBeforeYear d.year + inYear + (d.day - 1 : Nat)

/-- The year that holds a day.  Four hundred years have 146097 days, and the mean length of a year
finds the year or one of its neighbours. -/
def yearOfDayNumber (n : Int) : Int :=
  let guess := 400 * n / 146097 + 1
  if n < daysBeforeYear guess then guess - 1
  else if daysBeforeYear (guess + 1) ≤ n then guess + 1
  else guess

/-- The month and the day of the month of the `n`-th day, counted from zero, of months with the
given lengths. -/
def monthAndDay : List Nat → Nat → Nat × Nat
  | [], n => (1, n + 1)
  | length :: lengths, n =>
    if n < length then (1, n + 1)
    else
      let (month, day) := monthAndDay lengths (n - length)
      (month + 1, day)

/-- The date of a day. -/
def ofDayNumber (n : Int) : Date :=
  let year := yearOfDayNumber n
  let (month, day) := monthAndDay (monthLengths (isLeapYear year)) (n - daysBeforeYear year).toNat
  ⟨year, month, day⟩

/-- The day number of 1 January 1970. -/
def epochDay : Int := 719162

example : dayNumber ⟨1970, 1, 1⟩ = epochDay := by decide

example : ofDayNumber (dayNumber ⟨2000, 2, 29⟩) = ⟨2000, 2, 29⟩ := by decide

example : ofDayNumber (dayNumber ⟨-1, 12, 31⟩) = ⟨-1, 12, 31⟩ := by decide

end Date

end CommitStore
