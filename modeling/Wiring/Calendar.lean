/-!
# The calendar

Leap years and the lengths of months, for every year as if the calendar had always been in use.
-/

namespace Wiring.Calendar

/-- Whether a year has a day more. -/
def isLeapYear (year : Nat) : Bool := year % 4 = 0 && (year % 100 ≠ 0 || year % 400 = 0)

def monthLengths (year : Nat) : List Nat :=
  [31, if isLeapYear year then 29 else 28, 31, 30, 31, 30, 31, 31, 30, 31, 30, 31]

/-- The days of a month, counted from one, and none if there is no such month. -/
def daysIn (year month : Nat) : Nat :=
  if month = 0 then 0 else (monthLengths year).getD (month - 1) 0

/-- The days of all years before a year, where year zero is the first. -/
def daysBeforeYear (year : Nat) : Nat :=
  if year = 0 then 0 else 365 * year + (year - 1) / 4 - (year - 1) / 100 + (year - 1) / 400 + 1

end Wiring.Calendar
