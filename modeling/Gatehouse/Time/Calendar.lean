import Gatehouse.Time.Instant

/-! The calendar: years of 365 or 366 days, counted on past both ends of history,
and the day number of a date. -/
namespace Gatehouse

/-- A day of the calendar. -/
structure Date where
  year : Int
  month : Nat
  day : Nat
  deriving DecidableEq, Repr, Inhabited

namespace Calendar

/-- Every fourth year is a leap year, but of the centuries only every fourth. -/
def isLeap (year : Int) : Bool := year % 4 == 0 && (year % 100 != 0 || year % 400 == 0)

/-- Days from the beginning of the year 0 to the beginning of a year. -/
def daysBefore (year : Int) : Int :=
  365 * year + (year + 3) / 4 - (year + 99) / 100 + (year + 399) / 400

/-- The lengths of a year's months. -/
def monthLengths (year : Int) : List Nat :=
  [31, if isLeap year then 29 else 28, 31, 30, 31, 30, 31, 31, 30, 31, 30, 31]

/-- Days between the beginnings of the year 0 and of the year 1970. -/
def epochDay : Int := 719528

/-- The year in which a day falls, counted from the beginning of the year 0: the
guess by the mean length of a year is wrong by at most one. -/
def yearOf (day : Int) : Int :=
  let guess := 400 * day / 146097
  if day < daysBefore guess then guess - 1
  else if daysBefore (guess + 1) ≤ day then guess + 1
  else guess

/-- The month and the day of the month, both from 1, of the `n`th day from 0 of what
is left of a year that goes on with month `month`. -/
def monthDay : List Nat → Nat → Nat → Nat × Nat
  | [], month, n => (month, n + 1)
  | length :: rest, month, n =>
    if n < length then (month, n + 1) else monthDay rest (month + 1) (n - length)

end Calendar

namespace Date
open Calendar

/-- Whether the month and the day exist. -/
def Valid (d : Date) : Prop :=
  1 ≤ d.month ∧ 1 ≤ d.day ∧ ∃ n ∈ (monthLengths d.year)[d.month - 1]?, d.day ≤ n

instance (d : Date) : Decidable d.Valid :=
  inferInstanceAs (Decidable (_ ∧ _ ∧ ∃ n ∈ (_ : Option Nat), _))

/-- Days from the first day of 1970 to a date. -/
def toDays (d : Date) : Int :=
  let before : Nat := ((monthLengths d.year).take (d.month - 1)).foldr (· + ·) 0
  daysBefore d.year + before + (d.day - 1) - epochDay

/-- The date that many days after the first day of 1970. -/
def ofDays (days : Int) : Date :=
  let day := days + epochDay
  let year := yearOf day
  let (month, dayOfMonth) := monthDay (monthLengths year) 1 (day - daysBefore year).toNat
  ⟨year, month, dayOfMonth⟩

end Date

end Gatehouse
