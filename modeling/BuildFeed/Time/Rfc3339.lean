/-
# The text of an instant

Instants are written as RFC 3339 has it, in UTC and with the sign `Z`: the
fraction has 0, 3, 6 or 9 digits, as few as are exact, the leap second is
second 60, and a year outside 0000 to 9999 has a sign and at least four
digits.

The reader takes more than is written: blanks between the parts, parts
without their leading zeros, any number of digits in a signed year and in
the fraction (those after the ninth are cut), a space for the `T`, any
offset below 24 hours with or without its colon, and `UTC`. The second 60 is
taken in every minute.

Key definitions: `Instant.print`, `Instant.parse`.
-/
import BuildFeed.Time.Instant

namespace BuildFeed
namespace Time

/-! ### Writing -/

/-- A number with at least `width` digits. -/
def padded (width n : Nat) : List Char :=
  let digits := Nat.toDigits 10 n
  List.replicate (width - digits.length) '0' ++ digits

def printYear (y : Int) : List Char :=
  if 0 ≤ y ∧ y ≤ 9999 then padded 4 y.toNat
  else (if y < 0 then '-' else '+') :: padded 4 y.natAbs

def printDate (d : Date) : List Char :=
  printYear d.year ++ '-' :: padded 2 d.month ++ '-' :: padded 2 d.day

/-- The fraction of a second, given in nanoseconds. -/
def printFraction (nanos : Nat) : List Char :=
  if nanos = 0 then []
  else if nanos % 1000000 = 0 then '.' :: padded 3 (nanos / 1000000)
  else if nanos % 1000 = 0 then '.' :: padded 6 (nanos / 1000)
  else '.' :: padded 9 nanos

namespace Instant

/-- The text of an instant. -/
def print (t : Instant) : List Char :=
  let s := t.secondOfDay
  printDate t.date ++ 'T' :: padded 2 (s / 3600) ++ ':' :: padded 2 (s / 60 % 60) ++
    ':' :: padded 2 (s % 60 + if t.isLeap then 1 else 0) ++
    printFraction (t.nanos % 1000000000) ++ ['Z']

/-- The text of an instant as a string. -/
def render (t : Instant) : String := String.ofList t.print

end Instant

/-! ### Reading -/

/-- The characters with the Unicode property White_Space. -/
def isSpace (c : Char) : Bool :=
  let n := c.toNat
  (9 ≤ n && n ≤ 13) || n = 0x20 || n = 0x85 || n = 0xA0 || n = 0x1680 ||
    (0x2000 ≤ n && n ≤ 0x200A) || n = 0x2028 || n = 0x2029 || n = 0x202F || n = 0x205F ||
    n = 0x3000

def skipSpace (cs : List Char) : List Char := cs.dropWhile isSpace

/-- The digits at the start, at most `width` of them if a width is given. -/
def leadingDigits (width : Option Nat) (cs : List Char) : List Char :=
  let digits := cs.takeWhile Char.isDigit
  match width with
  | some w => digits.take w
  | none => digits

/-- A number of at least one digit. -/
def parseNat (width : Option Nat) (cs : List Char) : Option (Nat × List Char) :=
  match leadingDigits width cs with
  | [] => none
  | digits => some (Nat.ofDigitChars 10 digits 0, cs.drop digits.length)

/-- A number of one or two digits behind any blanks. -/
def parsePart (cs : List Char) : Option (Nat × List Char) :=
  parseNat (some 2) (skipSpace cs)

/-- A certain character behind any blanks. -/
def parseMark (mark : Char) (cs : List Char) : Option (List Char) :=
  match skipSpace cs with
  | c :: rest => if c = mark then some rest else none
  | [] => none

/-- A year: four digits at most, or any number of them behind a sign. -/
def parseYear (cs : List Char) : Option (Int × List Char) :=
  match skipSpace cs with
  | '-' :: rest => (parseNat none rest).map fun (n, rest) => (-n, rest)
  | '+' :: rest => (parseNat none rest).map fun (n, rest) => (n, rest)
  | cs => (parseNat (some 4) cs).map fun (n, rest) => (n, rest)

def parseDate (cs : List Char) : Option (Date × List Char) := do
  let (year, cs) ← parseYear cs
  let (month, cs) ← parsePart (← parseMark '-' cs)
  let (day, cs) ← parsePart (← parseMark '-' cs)
  return (⟨year, month, day⟩, cs)

/-- The letter between the date and the time, for which a space may stand. -/
def parseSeparator : List Char → Option (List Char)
  | c :: rest => if c = 'T' || c = 't' || c = ' ' then some rest else none
  | [] => none

/-- The fraction of a second in nanoseconds. -/
def parseFraction : List Char → Option (Nat × List Char)
  | '.' :: cs =>
    match leadingDigits none cs with
    | [] => none
    | digits =>
      let kept := digits.take 9
      some (Nat.ofDigitChars 10 kept 0 * Nat.pow 10 (9 - kept.length), cs.drop digits.length)
  | cs => some (0, cs)

/-- The time of a day: the second of the day and its nanoseconds. -/
def parseTime (cs : List Char) : Option (Nat × Nat × List Char) := do
  let (hour, cs) ← parsePart cs
  let (minute, cs) ← parsePart (← parseMark ':' cs)
  let (second, cs) ← parsePart (← parseMark ':' cs)
  let (nanos, cs) ← parseFraction cs
  if hour < 24 ∧ minute < 60 ∧ second ≤ 60 then
    if second = 60 then return (hour * 3600 + minute * 60 + 59, 1000000000 + nanos, cs)
    else return (hour * 3600 + minute * 60 + second, nanos, cs)
  else none

/-- Two digits. -/
def parseTwo : List Char → Option (Nat × List Char)
  | a :: b :: rest =>
    if a.isDigit && b.isDigit then some (Nat.ofDigitChars 10 [a, b] 0, rest) else none
  | _ => none

/-- The hours and minutes of an offset, in seconds. -/
def parseOffset (cs : List Char) : Option (Nat × List Char) := do
  let (hours, cs) ← parseTwo cs
  let (minutes, cs) ← parseTwo (cs.dropWhile fun c => c = ':' || isSpace c)
  if hours < 24 ∧ minutes < 60 then return (hours * 3600 + minutes * 60, cs) else none

/-- The offset from UTC in seconds. -/
def parseZone (cs : List Char) : Option (Int × List Char) :=
  match skipSpace cs with
  | 'Z' :: rest => some (0, rest)
  | 'z' :: rest => some (0, rest)
  | '+' :: rest => (parseOffset rest).map fun (n, rest) => (n, rest)
  | '-' :: rest => (parseOffset rest).map fun (n, rest) => (-n, rest)
  | '−' :: rest => (parseOffset rest).map fun (n, rest) => (-n, rest)
  | u :: t :: c :: rest =>
    if u.toUpper = 'U' && t.toUpper = 'T' && c.toUpper = 'C' then some (0, rest) else none
  | _ => none

namespace Instant

/-- Reads the text of an instant. The date has to be in the calendar, and both
the date as written and the instant in UTC in the years that instants have. -/
def parse (cs : List Char) : Option Instant := do
  let (date, cs) ← parseDate cs
  let cs ← parseSeparator cs
  let (second, nanos, cs) ← parseTime cs
  let (offset, cs) ← parseZone cs
  if date.IsValid ∧ firstYear ≤ date.year ∧ date.year ≤ lastYear ∧ skipSpace cs = [] then
    ofSeconds? (date.toDays * daySeconds + second - offset) nanos
  else none

end Instant

end Time
end BuildFeed
