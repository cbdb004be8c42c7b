/-
# The Gregorian calendar

Days are counted from 1970-01-01. `Date.toDays` sums the days of the years
and months before a date; `Date.ofDays` finds the year by an estimate that
is at most one off, and the month by taking the lengths of the months away.

Key definitions: `Date`, `Date.IsValid`, `Date.toDays`, `Date.ofDays`.
-/

namespace BuildFeed
namespace Time

/-- Every fourth year is a leap year, but of the full centuries only every
fourth is. -/
def isLeapYear (y : Int) : Bool :=
  y % 4 = 0 && (y % 100 ≠ 0 || y % 400 = 0)

/-- The lengths of the months of a year. -/
def monthLengths (leap : Bool) : List Nat :=
  [31, if leap then 29 else 28, 31, 30, 31, 30, 31, 31, 30, 31, 30, 31]

/-- The number of days in the months before a month. -/
def daysBeforeMonth (leap : Bool) (month : Nat) : Nat :=
  ((monthLengths leap).take (month - 1)).foldr Nat.add 0

/-- The number of days from 0001-01-01 to the first day of a year. -/
def daysBeforeYear (y : Int) : Int :=
  365 * (y - 1) + (y - 1) / 4 - (y - 1) / 100 + (y - 1) / 400

/-- The number of days from 0001-01-01 to 1970-01-01. -/
def epochDays : Int := 719162

/-- A day of the Gregorian calendar, carried on before its introduction; the
year before 1 is 0. -/
structure Date where
  year : Int
  month : Nat
  day : Nat
  deriving Repr, DecidableEq, Inhabited

namespace Date

/-- Whether the month and the day are in the calendar. -/
def IsValid (d : Date) : Prop :=
  1 ≤ d.month ∧ 1 ≤ d.day ∧ d.day ≤ (monthLengths (isLeapYear d.year)).getD (d.month - 1) 0

instance (d : Date) : Decidable d.IsValid := by unfold IsValid; infer_instance

/-- The number of a day, 1970-01-01 being day 0. -/
def toDays (d : Date) : Int :=
  daysBeforeYear d.year + daysBeforeMonth (isLeapYear d.year) d.month + d.day - 1 - epochDays

/-- The year of the day that lies `n` days after 0001-01-01. -/
def yearOf (n : Int) : Int :=
  let y := 400 * n / 146097 + 1
  if n < daysBeforeYear y then y - 1
  else if daysBeforeYear (y + 1) ≤ n then y + 1
  else y

/-- The month and the day of the month that lie `d` days after the first day
of month `m`, given the lengths of the months from `m` on. -/
def monthAndDay (m : Nat) : List Nat → Nat → Nat × Nat
  | [], d => (m, d + 1)
  | l :: ls, d => if d < l then (m, d + 1) else monthAndDay (m + 1) ls (d - l)

/-- The date of a day. -/
def ofDays (n : Int) : Date :=
  let n := n + epochDays
  let y := yearOf n
  let (m, d) := monthAndDay 1 (monthLengths (isLeapYear y)) (n - daysBeforeYear y).toNat
  ⟨y, m, d⟩

end Date

end Time
end BuildFeed
