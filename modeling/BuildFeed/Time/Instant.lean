/-
# Instants

An `Instant` is a second since 1970-01-01T00:00:00Z and a part of it in
nanoseconds. A leap second is the second part of a 59th second: its
nanoseconds run on from 1000000000. Instants lie in the years from -262143
to 262142.

Key definitions: `Instant`, `Instant.ofSeconds?`.
-/
import BuildFeed.Time.Calendar

namespace BuildFeed
namespace Time

/-- The number of seconds in a day. -/
def daySeconds : Int := 86400

/-- The first and the last year that instants lie in. -/
def firstYear : Int := -262143
def lastYear : Int := 262142

/-- The first second of the first year. -/
def firstSecond : Int := (Date.toDays ⟨firstYear, 1, 1⟩) * daySeconds

/-- The last second of the last year. -/
def lastSecond : Int := (Date.toDays ⟨lastYear, 12, 31⟩) * daySeconds + (daySeconds - 1)

/-- Whether a second and its nanoseconds are an instant. -/
def IsInstant (seconds : Int) (nanos : Nat) : Prop :=
  firstSecond ≤ seconds ∧ seconds ≤ lastSecond ∧ nanos < 2000000000 ∧
    (1000000000 ≤ nanos → seconds % 60 = 59)

instance (seconds : Int) (nanos : Nat) : Decidable (IsInstant seconds nanos) := by
  unfold IsInstant; infer_instance

/-- A point in time. -/
structure Instant where
  seconds : Int
  nanos : Nat
  isInstant : IsInstant seconds nanos
  deriving DecidableEq

namespace Instant

/-- The instant of a second and its nanoseconds, if they are one. -/
def ofSeconds? (seconds : Int) (nanos : Nat) : Option Instant :=
  if h : IsInstant seconds nanos then some ⟨seconds, nanos, h⟩ else none

/-- The first instant of 1970. -/
def epoch : Instant := ⟨0, 0, by decide⟩

instance : Inhabited Instant := ⟨epoch⟩

/-- Whether the instant lies in a leap second. -/
def isLeap (t : Instant) : Bool := 1000000000 ≤ t.nanos

/-- The day of the instant. -/
def date (t : Instant) : Date := .ofDays (t.seconds / daySeconds)

/-- The second of the day that the instant lies in. -/
def secondOfDay (t : Instant) : Nat := (t.seconds % daySeconds).toNat

end Instant

end Time
end BuildFeed
