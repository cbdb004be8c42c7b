/-
# Days and dates

Every day has one date, and it is in the calendar: the date of a day is that
day (`Date.toDays_ofDays`) and valid (`Date.isValid_ofDays`). The years are
found because the estimate of `Date.yearOf` is at most one off
(`Date.yearOf_spec`), and the months because they fill the year
(`Date.monthAndDay_spec`).

Key theorems: `Date.yearOf_spec`, `Date.monthAndDay_spec`, `Date.toDays_ofDays`,
`Date.isValid_ofDays`, `Date.year_ofDays_le`.
-/
import BuildFeed.Time.Calendar
import Mathlib.Data.List.GetD
import Mathlib.Order.Basic

namespace BuildFeed
namespace Time

/-- The number of days of a year. -/
def yearLength (leap : Bool) : Nat := if leap then 366 else 365

/-- A year begins as many days after the year before as that has. -/
theorem daysBeforeYear_succ (y : Int) :
    daysBeforeYear (y + 1) = daysBeforeYear y + yearLength (isLeapYear y) := by
  by_cases h : isLeapYear y = true
  · have hleap := h
    simp only [isLeapYear, Bool.and_eq_true, Bool.or_eq_true, decide_eq_true_eq] at hleap
    rw [h, yearLength, if_pos rfl, daysBeforeYear, daysBeforeYear]
    omega
  · have hleap := h
    simp only [isLeapYear, Bool.and_eq_true, Bool.or_eq_true, decide_eq_true_eq] at hleap
    rw [Bool.eq_false_iff.mpr h, yearLength, if_neg (by simp), daysBeforeYear, daysBeforeYear]
    omega

theorem daysBeforeYear_mono {y z : Int} (h : y ≤ z) : daysBeforeYear y ≤ daysBeforeYear z := by
  unfold daysBeforeYear
  omega

namespace Date

/-- The year of a day begins before it, and the next year after it. -/
theorem yearOf_spec (n : Int) :
    daysBeforeYear (yearOf n) ≤ n ∧ n < daysBeforeYear (yearOf n + 1) := by
  have hlow : daysBeforeYear (400 * n / 146097) ≤ n := by
    unfold daysBeforeYear
    omega
  have hhigh : n < daysBeforeYear (400 * n / 146097 + 1 + 1 + 1) := by
    unfold daysBeforeYear
    omega
  unfold yearOf
  generalize 400 * n / 146097 = q at hlow hhigh ⊢
  dsimp only
  by_cases h₁ : n < daysBeforeYear (q + 1)
  · rw [if_pos h₁, Int.add_sub_cancel]
    exact ⟨hlow, h₁⟩
  · rw [if_neg h₁]
    by_cases h₂ : daysBeforeYear (q + 1 + 1) ≤ n
    · rw [if_pos h₂]
      exact ⟨h₂, hhigh⟩
    · rw [if_neg h₂]
      omega

/-- The months of a year cover its days: a day lies in one of them. -/
theorem monthAndDay_spec {lengths : List Nat} {d : Nat} (m : Nat)
    (h : d < lengths.foldr Nat.add 0) :
    ∃ i, (monthAndDay m lengths d).1 = m + i ∧ 1 ≤ (monthAndDay m lengths d).2 ∧
      (monthAndDay m lengths d).2 ≤ lengths.getD i 0 ∧
      (lengths.take i).foldr Nat.add 0 + (monthAndDay m lengths d).2 = d + 1 := by
  induction lengths generalizing m d with
  | nil => simp at h
  | cons l ls ih =>
    by_cases hlt : d < l
    · refine ⟨0, ?_⟩
      rw [monthAndDay, if_pos hlt]
      simp
      omega
    · have hrest : d - l < ls.foldr Nat.add 0 := by
        have : d < l + ls.foldr Nat.add 0 := h
        omega
      obtain ⟨i, h1, h2, h3, h4⟩ := ih (m + 1) hrest
      refine ⟨i + 1, ?_⟩
      rw [monthAndDay, if_neg hlt, List.take_succ_cons, List.foldr_cons, List.getD_cons_succ]
      refine ⟨by omega, h2, h3, ?_⟩
      show l + _ + _ = _
      omega

theorem sum_monthLengths (leap : Bool) : (monthLengths leap).foldr Nat.add 0 = yearLength leap := by
  cases leap <;> rfl

theorem monthLength_le (leap : Bool) (i : Nat) (h : 1 ≤ (monthLengths leap).getD i 0) :
    i < 12 ∧ (monthLengths leap).getD i 0 ≤ 31 := by
  have hlt : i < 12 := by
    by_contra hge
    rw [List.getD_eq_default _ _ (by simp [monthLengths]; omega)] at h
    omega
  have hall : ∀ (leap : Bool) (i : Fin 12), (monthLengths leap).getD i.val 0 ≤ 31 := by decide
  exact ⟨hlt, hall leap ⟨i, hlt⟩⟩

/-- The year of a day, and the month and the day that it has in the year. -/
theorem ofDays_spec (n : Int) :
    (ofDays n).year = yearOf (n + epochDays) ∧ 1 ≤ (ofDays n).month ∧ (ofDays n).month ≤ 12 ∧
      1 ≤ (ofDays n).day ∧
      (ofDays n).day ≤ (monthLengths (isLeapYear (ofDays n).year)).getD ((ofDays n).month - 1) 0 ∧
      daysBeforeYear (ofDays n).year +
        daysBeforeMonth (isLeapYear (ofDays n).year) (ofDays n).month + (ofDays n).day =
          n + epochDays + 1 := by
  obtain ⟨hlow, hhigh⟩ := yearOf_spec (n + epochDays)
  rw [daysBeforeYear_succ] at hhigh
  have hdate : ofDays n = ⟨yearOf (n + epochDays),
      (monthAndDay 1 (monthLengths (isLeapYear (yearOf (n + epochDays))))
        (n + epochDays - daysBeforeYear (yearOf (n + epochDays))).toNat).1,
      (monthAndDay 1 (monthLengths (isLeapYear (yearOf (n + epochDays))))
        (n + epochDays - daysBeforeYear (yearOf (n + epochDays))).toNat).2⟩ := rfl
  rw [hdate]
  generalize yearOf (n + epochDays) = y at hlow hhigh ⊢
  have hlt : (n + epochDays - daysBeforeYear y).toNat <
      (monthLengths (isLeapYear y)).foldr Nat.add 0 := by
    rw [sum_monthLengths]
    omega
  obtain ⟨i, hmonth, hone, hle, hsum⟩ := monthAndDay_spec 1 hlt
  have hi := (monthLength_le _ i (Nat.le_trans hone hle)).1
  have hindex : (monthAndDay 1 (monthLengths (isLeapYear y))
      (n + epochDays - daysBeforeYear y).toNat).1 - 1 = i := by omega
  dsimp only
  rw [daysBeforeMonth, hindex]
  refine ⟨rfl, by omega, by omega, hone, hle, ?_⟩
  omega

/-- The date of a day is in the calendar. -/
theorem isValid_ofDays (n : Int) : (ofDays n).IsValid := by
  obtain ⟨-, hmonth, -, hone, hle, -⟩ := ofDays_spec n
  exact ⟨hmonth, hone, hle⟩

/-- The date of a day is the date of no other. -/
theorem toDays_ofDays (n : Int) : (ofDays n).toDays = n := by
  obtain ⟨-, -, -, -, -, hsum⟩ := ofDays_spec n
  unfold toDays
  omega

theorem month_ofDays_le (n : Int) : (ofDays n).month ≤ 12 := (ofDays_spec n).2.2.1

theorem day_ofDays_le (n : Int) : (ofDays n).day ≤ 31 := by
  obtain ⟨-, -, -, hone, hle, -⟩ := ofDays_spec n
  exact Nat.le_trans hle (monthLength_le _ _ (Nat.le_trans hone hle)).2

/-- A day that is not before a year is not in an earlier year. -/
theorem le_year_ofDays {y n : Int} (h : daysBeforeYear y ≤ n + epochDays) :
    y ≤ (ofDays n).year := by
  obtain ⟨-, hhigh⟩ := yearOf_spec (n + epochDays)
  by_contra hlt
  have hmono := daysBeforeYear_mono (show yearOf (n + epochDays) + 1 ≤ y from Int.not_le.mp hlt)
  omega

/-- A day before the end of a year is not in a later year. -/
theorem year_ofDays_le {y n : Int} (h : n + epochDays < daysBeforeYear (y + 1)) :
    (ofDays n).year ≤ y := by
  obtain ⟨hlow, -⟩ := yearOf_spec (n + epochDays)
  by_contra hlt
  have hmono := daysBeforeYear_mono (show y + 1 ≤ yearOf (n + epochDays) from Int.not_le.mp hlt)
  omega

end Date

end Time
end BuildFeed
