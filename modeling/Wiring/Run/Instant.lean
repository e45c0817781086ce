import Wiring.Calendar
import Wiring.Report.Basic

/-!
# Instants

Points in time as nanoseconds since the start of 1970 in universal time, and their text: date and
time of day with a `T` between them, a fraction of three, six or nine digits if there is one, and the
offset.
-/

namespace Wiring

open Calendar (daysBeforeYear monthLengths)

/-- A point in time. -/
structure Instant where
  nanoseconds : Nat
  deriving DecidableEq

namespace Instant

/-- The year of a day, if it is one of the `n` years after `year` or that year itself. -/
def yearFrom (day : Nat) : Nat → Nat → Nat
  | 0, year => year
  | n + 1, year => if daysBeforeYear (year + 1) ≤ day then yearFrom day n (year + 1) else year

/-- The year of a day, counted from the start of year zero. No year is longer than 366 days and none
is shorter than 365. -/
def yearOf (day : Nat) : Nat :=
  let least := day / 366
  yearFrom day (day / 365 - least + 1) least

/-- The month, from one, and the day of the month, from one, of a day of the year, from zero. -/
def monthAndDay (month day : Nat) : List Nat → Nat × Nat
  | [] => (month, day + 1)
  | n :: ns => if day < n then (month, day + 1) else monthAndDay (month + 1) (day - n) ns

/-- A number with zeros in front to a width. -/
def padded (width n : Nat) : String :=
  let digits := toString n
  .ofList (List.replicate (width - digits.length) '0') ++ digits

/-- The fraction of a second. -/
def fractionText (nanoseconds : Nat) : String :=
  if nanoseconds = 0 then ""
  else if nanoseconds % 1000000 = 0 then "." ++ padded 3 (nanoseconds / 1000000)
  else if nanoseconds % 1000 = 0 then "." ++ padded 6 (nanoseconds / 1000)
  else "." ++ padded 9 nanoseconds

/-- The text of a point in time. -/
def text (i : Instant) : String :=
  let seconds := i.nanoseconds / 1000000000
  let day := seconds / 86400 + daysBeforeYear 1970
  let second := seconds % 86400
  let year := yearOf day
  let (month, dayOfMonth) := monthAndDay 1 (day - daysBeforeYear year) (monthLengths year)
  padded 4 year ++ "-" ++ padded 2 month ++ "-" ++ padded 2 dayOfMonth ++ "T" ++
    padded 2 (second / 3600) ++ ":" ++ padded 2 (second / 60 % 60) ++ ":" ++
    padded 2 (second % 60) ++ fractionText (i.nanoseconds % 1000000000) ++ "+00:00"

end Instant

/-- What is noted of a run from one point in time to another. -/
def RunInfo.between (start finish : Instant) : RunInfo :=
  ⟨start.text, some finish.text, some ((finish.nanoseconds - start.nanoseconds) / 1000000)⟩

end Wiring
