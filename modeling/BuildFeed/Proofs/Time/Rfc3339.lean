/-
# Instants are read back

The reader takes the text of an instant apart as it was put together: a number
with its leading zeros ends where no digit follows (`parseNat_padded`), and so
the year, the date (`parseDate_print`), the fraction and the time of the day
(`parseTime_print`) are what was written. The day, its second and the
nanoseconds make the instant again (`Instant.parse_print`).

Key definitions: `Undigited`.
Key theorems: `parseNat_padded`, `parseDate_print`, `parseTime_print`,
`Instant.parse_print`.
-/
import BuildFeed.Proofs.Time.Calendar
import BuildFeed.Time.Rfc3339
import Mathlib.Algebra.Group.Nat.Defs

namespace BuildFeed
namespace Time

/-! ### Numbers with leading zeros -/

/-- Whether a number ends before this: no digit follows. -/
def Undigited (rest : List Char) : Prop := ∀ c ∈ rest.head?, c.isDigit = false

theorem isDigit_padded {width n : Nat} {c : Char} (h : c ∈ padded width n) : c.isDigit = true := by
  rcases List.mem_append.mp h with h | h
  · obtain ⟨-, rfl⟩ := List.mem_replicate.mp h
    rfl
  · exact Nat.isDigit_of_mem_toDigits (by decide) (by decide) h

theorem ofDigitChars_padded (width n : Nat) : Nat.ofDigitChars 10 (padded width n) 0 = n := by
  unfold padded
  rw [Nat.ofDigitChars_append, Nat.ofDigitChars_replicate_zero, Nat.mul_zero,
    Nat.ofDigitChars_ten_toDigits]

theorem padded_ne_nil (width n : Nat) : padded width n ≠ [] := by
  simp [padded]

/-- A number that needs no more digits has as many as it is given. -/
theorem length_padded {width n : Nat} (hw : 0 < width) (h : n < 10 ^ width) :
    (padded width n).length = width := by
  have hlen : (Nat.toDigits 10 n).length ≤ width :=
    (Nat.length_toDigits_le_iff (by decide) hw).mpr h
  rw [padded, List.length_append, List.length_replicate]
  omega

/-- A number is read up to the first character that is no digit. -/
theorem parseNat_padded {width : Option Nat} {k n : Nat} {rest : List Char}
    (hw : ∀ w ∈ width, (padded k n).length ≤ w) (hrest : Undigited rest) :
    parseNat width (padded k n ++ rest) = some (n, rest) := by
  have hrun : (padded k n ++ rest).takeWhile Char.isDigit = padded k n := by
    rw [List.takeWhile_append_of_pos fun c hc => isDigit_padded hc]
    cases rest with
    | nil => rw [List.takeWhile_nil, List.append_nil]
    | cons c rest => rw [List.takeWhile_cons, hrest c rfl, if_neg (by simp), List.append_nil]
  have hleading : leadingDigits width (padded k n ++ rest) = padded k n := by
    unfold leadingDigits
    rw [hrun]
    cases width with
    | none => rfl
    | some w => exact List.take_of_length_le (hw w rfl)
  unfold parseNat
  rw [hleading]
  split
  · next h => exact absurd h (padded_ne_nil k n)
  · rw [ofDigitChars_padded, List.drop_left]

/-! ### Marks -/

theorem skipSpace_cons {c : Char} {cs : List Char} (h : isSpace c = false) :
    skipSpace (c :: cs) = c :: cs := by
  rw [skipSpace, List.dropWhile_cons, h, if_neg (by simp)]

theorem not_isSpace_of_isDigit {c : Char} (h : c.isDigit = true) : isSpace c = false := by
  have hrange : 48 ≤ c.toNat ∧ c.toNat ≤ 57 := by
    simp only [Char.isDigit, Bool.and_eq_true, decide_eq_true_eq, ge_iff_le,
      UInt32.le_iff_toNat_le] at h
    exact h
  simp only [isSpace, Bool.or_eq_false_iff, Bool.and_eq_false_iff, decide_eq_false_iff_not]
  omega

theorem skipSpace_padded (k n : Nat) (rest : List Char) :
    skipSpace (padded k n ++ rest) = padded k n ++ rest := by
  cases h : padded k n with
  | nil => exact absurd h (padded_ne_nil k n)
  | cons c ds => exact skipSpace_cons (not_isSpace_of_isDigit (isDigit_padded (by rw [h]; simp)))

theorem parsePart_padded {n : Nat} {rest : List Char} (h : n < 100) (hrest : Undigited rest) :
    parsePart (padded 2 n ++ rest) = some (n, rest) := by
  rw [parsePart, skipSpace_padded]
  refine parseNat_padded ?_ hrest
  rintro w ⟨⟩
  exact Nat.le_of_eq (length_padded (by decide) h)

theorem parseMark_cons {mark : Char} {rest : List Char} (h : isSpace mark = false) :
    parseMark mark (mark :: rest) = some rest := by
  rw [parseMark, skipSpace_cons h]
  exact if_pos rfl

/-! ### The date -/

/-- A year is read up to the mark behind it. -/
theorem parseYear_print (y : Int) {rest : List Char} (hrest : Undigited rest) :
    parseYear (printYear y ++ rest) = some (y, rest) := by
  unfold printYear
  by_cases hy : 0 ≤ y ∧ y ≤ 9999
  · have hread : parseNat (some 4) (padded 4 y.toNat ++ rest) = some (y.toNat, rest) := by
      refine parseNat_padded ?_ hrest
      rintro w ⟨⟩
      exact Nat.le_of_eq (length_padded (by decide) (by omega))
    have hint : ((y.toNat : Nat) : Int) = y := by omega
    rw [if_pos hy, parseYear, skipSpace_padded]
    -- the year begins with a digit, and so with neither sign
    cases hds : padded 4 y.toNat with
    | nil => exact absurd hds (padded_ne_nil _ _)
    | cons c ds =>
      have hc : c.isDigit = true := isDigit_padded (by rw [hds]; exact List.mem_cons_self)
      rw [hds] at hread
      split
      · next heq =>
        obtain ⟨rfl, -⟩ := List.cons.inj heq
        exact absurd hc (by decide)
      · next heq =>
        obtain ⟨rfl, -⟩ := List.cons.inj heq
        exact absurd hc (by decide)
      · rw [hread, Option.map_some]
        simp only [hint]
  · have hread : parseNat none (padded 4 y.natAbs ++ rest) = some (y.natAbs, rest) :=
      parseNat_padded (by simp) hrest
    rw [if_neg hy, List.cons_append]
    by_cases hneg : y < 0
    · have hint : (-(y.natAbs : Nat) : Int) = y := by omega
      rw [if_pos hneg, parseYear, skipSpace_cons rfl]
      simp only [hread, Option.map_some, hint]
    · have hint : ((y.natAbs : Nat) : Int) = y := by omega
      rw [if_neg hneg, parseYear, skipSpace_cons rfl]
      simp only [hread, Option.map_some, hint]

theorem parseDate_print {d : Date} (hmonth : d.month < 100) (hday : d.day < 100) {rest : List Char}
    (hrest : Undigited rest) : parseDate (printDate d ++ rest) = some (d, rest) := by
  have hform : printDate d ++ rest =
      printYear d.year ++ '-' :: (padded 2 d.month ++ '-' :: (padded 2 d.day ++ rest)) := by
    simp [printDate]
  have hmark : ∀ cs, Undigited ('-' :: cs) := by rintro cs c ⟨⟩; rfl
  rw [hform, parseDate]
  simp only [parseYear_print d.year (hmark _), parseMark_cons (show isSpace '-' = false by decide),
    parsePart_padded hmonth (hmark _), parsePart_padded hday hrest, Option.bind_eq_bind,
    Option.bind_some, pure]

/-! ### The time of the day -/

theorem parseFraction_print {nanos : Nat} (h : nanos < 1000000000) (rest : List Char) :
    parseFraction (printFraction nanos ++ 'Z' :: rest) = some (nanos, 'Z' :: rest) := by
  -- as many digits as are written, up to nine, are read and filled up
  have hread : ∀ k n : Nat, 0 < k → k ≤ 9 → n < 10 ^ k →
      parseFraction ('.' :: padded k n ++ 'Z' :: rest) = some (n * 10 ^ (9 - k), 'Z' :: rest) := by
    intro k n hk hk9 hn
    have hlen := length_padded hk hn
    have hleading : leadingDigits none (padded k n ++ 'Z' :: rest) = padded k n := by
      unfold leadingDigits
      rw [List.takeWhile_append_of_pos fun c hc => isDigit_padded hc,
        List.takeWhile_cons_of_neg (by decide), List.append_nil]
    have hkept : (padded k n).take 9 = padded k n := List.take_of_length_le (by omega)
    rw [List.cons_append, parseFraction, hleading]
    split
    · next h => exact absurd h (padded_ne_nil k n)
    · simp only [hkept, ofDigitChars_padded, List.drop_left]
      rw [hlen]
      rfl
  unfold printFraction
  split_ifs with h₁ h₂ h₃
  · rw [h₁]
    rfl
  · rw [hread 3 _ (by decide) (by decide) (by omega)]
    congr 2
    omega
  · rw [hread 6 _ (by decide) (by decide) (by omega)]
    congr 2
    omega
  · rw [hread 9 _ (by decide) (by decide) (by omega)]
    congr 2
    omega

theorem parseTime_print {hour minute second nanos : Nat} (hh : hour < 24) (hm : minute < 60)
    (hs : second ≤ 60) (hn : nanos < 1000000000) (rest : List Char) :
    parseTime (padded 2 hour ++ ':' :: (padded 2 minute ++ ':' :: (padded 2 second ++
      (printFraction nanos ++ 'Z' :: rest)))) =
        some (if second = 60 then (hour * 3600 + minute * 60 + 59, 1000000000 + nanos, 'Z' :: rest)
          else (hour * 3600 + minute * 60 + second, nanos, 'Z' :: rest)) := by
  have hmark : ∀ cs, Undigited (':' :: cs) := by rintro cs c ⟨⟩; rfl
  have hfraction : Undigited (printFraction nanos ++ 'Z' :: rest) := by
    unfold printFraction
    split_ifs <;> rintro c ⟨⟩ <;> rfl
  unfold parseTime
  simp only [parsePart_padded (show hour < 100 by omega) (hmark _),
    parsePart_padded (show minute < 100 by omega) (hmark _),
    parsePart_padded (show second < 100 by omega) hfraction,
    parseMark_cons (show isSpace ':' = false by decide), parseFraction_print hn,
    Option.bind_eq_bind, Option.bind_some, hh, hm, hs, true_and, if_true, pure]
  split_ifs <;> rfl

namespace Instant

/-- The text of an instant, part by part. -/
theorem print_eq (t : Instant) : t.print =
    printDate t.date ++ 'T' :: (padded 2 (t.secondOfDay / 3600) ++
    ':' :: (padded 2 (t.secondOfDay / 60 % 60) ++ ':' ::
      (padded 2 (t.secondOfDay % 60 + if t.isLeap then 1 else 0) ++
        (printFraction (t.nanos % 1000000000) ++ 'Z' :: [])))) := by
  simp [print]

/-- An instant lies in the years that instants have. -/
theorem year_date (t : Instant) : firstYear ≤ t.date.year ∧ t.date.year ≤ lastYear := by
  obtain ⟨hfirst, hlast, -⟩ := t.isInstant
  have hdays : Date.toDays ⟨firstYear, 1, 1⟩ = daysBeforeYear firstYear - epochDays := by decide
  have hdays' : Date.toDays ⟨lastYear, 12, 31⟩ = daysBeforeYear (lastYear + 1) - 1 - epochDays := by
    decide
  rw [firstSecond, hdays] at hfirst
  rw [lastSecond, hdays'] at hlast
  unfold daySeconds at hfirst hlast
  constructor
  · apply Date.le_year_ofDays
    unfold daySeconds
    omega
  · apply Date.year_ofDays_le
    unfold daySeconds
    omega

/-- What is made of the time that is written for an instant: the second 60 stands
for a leap second, which runs on from second 59. -/
theorem timeOfDay (t : Instant) (rest : List Char) :
    (if t.secondOfDay % 60 + (if t.isLeap then 1 else 0) = 60 then
        (t.secondOfDay / 3600 * 3600 + t.secondOfDay / 60 % 60 * 60 + 59,
          1000000000 + t.nanos % 1000000000, rest)
      else (t.secondOfDay / 3600 * 3600 + t.secondOfDay / 60 % 60 * 60 +
        (t.secondOfDay % 60 + if t.isLeap then 1 else 0), t.nanos % 1000000000, rest)) =
      (t.secondOfDay, t.nanos, rest) := by
  obtain ⟨-, -, hnanos, hleap⟩ := t.isInstant
  by_cases hl : 1000000000 ≤ t.nanos
  · have hsixty : t.secondOfDay % 60 = 59 := by
      have := hleap hl
      unfold secondOfDay daySeconds
      omega
    have hisLeap : t.isLeap = true := decide_eq_true hl
    rw [hisLeap, if_pos rfl, if_pos (by omega)]
    simp only [Prod.mk.injEq, and_true]
    omega
  · have hisLeap : t.isLeap = false := decide_eq_false hl
    simp only [hisLeap, Bool.false_eq_true, if_false]
    rw [if_neg (by omega)]
    simp only [Prod.mk.injEq, and_true]
    omega

/-- The text of an instant is read as the instant. -/
theorem parse_print (t : Instant) : parse t.print = some t := by
  obtain ⟨hlow, hhigh⟩ := t.year_date
  have hvalid : t.date.IsValid := Date.isValid_ofDays _
  have hmonth : t.date.month < 100 := Nat.lt_of_le_of_lt (Date.month_ofDays_le _) (by decide)
  have hday : t.date.day < 100 := Nat.lt_of_le_of_lt (Date.day_ofDays_le _) (by decide)
  have hdays : t.date.toDays * daySeconds + t.secondOfDay = t.seconds := by
    rw [date, Date.toDays_ofDays, secondOfDay, daySeconds]
    omega
  have hsecond : t.secondOfDay < 86400 := by
    unfold secondOfDay daySeconds
    omega
  have hT : ∀ cs, Undigited ('T' :: cs) := by rintro cs c ⟨⟩; rfl
  have hhour : t.secondOfDay / 3600 < 24 := by omega
  have hminute : t.secondOfDay / 60 % 60 < 60 := by omega
  have hsecond' : t.secondOfDay % 60 + (if t.isLeap then 1 else 0) ≤ 60 := by split <;> omega
  have hnanos : t.nanos % 1000000000 < 1000000000 := by omega
  have hread := parseTime_print hhour hminute hsecond' hnanos []
  rw [timeOfDay] at hread
  have hzone : parseZone ['Z'] = some (0, []) := rfl
  have hseparator : ∀ cs, parseSeparator ('T' :: cs) = some cs := fun _ => rfl
  have hend : skipSpace [] = [] := rfl
  rw [parse, print_eq]
  simp only [parseDate_print hmonth hday (hT _), hseparator, hread, hzone, hend, hvalid, hlow,
    hhigh,
    Option.bind_eq_bind, Option.bind_some, true_and, if_true, Int.sub_zero, hdays]
  rw [ofSeconds?, dif_pos t.isInstant]

end Instant

end Time
end BuildFeed
