/-
# The range of floats

A number that is not an integer of 64 bits is read as a float. Its leading
digits, as many as 64 bits hold, make the significand; digits that are left
over count by their places alone. The significand and the power of ten that
goes with it are each rounded to double precision before they are multiplied,
and the number is out of range if the product is. Near the largest float this
is not the same as to round the number itself: the product of the rounded
parts may overflow where the number would not, and the reverse.

A negative power divides, which makes nothing too large.

Key definitions: `nearestDouble`, `floatLimit`, `significand`, `fitsFloat`.
Key theorems: `nearestDouble_of_lt`, `nearestDouble_error_le`.
-/

namespace BuildFeed
namespace Json

/-- The distance of neighbouring double-precision floats at a natural number:
they have 53 significant bits. -/
def doubleSpacing (n : Nat) : Nat := Nat.pow 2 (n.log2 + 1 - 53)

/-- The nearest of the numbers with 53 significant bits, the even one of two
that are as near. -/
def nearestDouble (n : Nat) : Nat :=
  let unit := doubleSpacing n
  let below := n / unit
  let rest := n % unit
  if unit < 2 * rest || (unit = 2 * rest && below % 2 = 1) then (below + 1) * unit
  else below * unit

/-- The smallest number that rounds beyond the largest double-precision float. -/
def floatLimit : Nat := Nat.pow 2 1024 - Nat.pow 2 970

/-- The number that the digits behind `m` make with it, as many of them as
64 bits hold, and the digits left over. -/
def significand (m : Nat) : List Char → Nat × List Char
  | [] => (m, [])
  | c :: cs =>
    let n := m * 10 + (c.toNat - 48)
    if n < UInt64.size then significand n cs else (m, c :: cs)

/-- Whether a float holds the number with the given digits before and behind
the point and the given exponent. -/
def fitsFloat (whole fraction : List Char) (exponent : Int) : Bool :=
  let (m, left) := significand 0 whole
  let (m, unread) := significand m fraction
  let e := exponent + left.length - (fraction.length - unread.length)
  m = 0 || e < 0 ||
    (e ≤ 308 && nearestDouble m * nearestDouble (Nat.pow 10 e.toNat) < floatLimit)

theorem doubleSpacing_pos (n : Nat) : 0 < doubleSpacing n :=
  Nat.pow_pos (by decide)

/-- What 53 bits hold is not rounded. -/
theorem nearestDouble_of_lt {n : Nat} (h : n < 0x20000000000000) : nearestDouble n = n := by
  have hlog : n.log2 + 1 - 53 = 0 := by
    by_cases hn : n = 0
    · subst hn
      decide
    · have := (Nat.log2_lt hn).mpr (show n < 2 ^ 53 from h)
      omega
  have hunit : doubleSpacing n = 1 := by simp only [doubleSpacing, hlog]
  simp [nearestDouble, hunit, Nat.mod_one]

/-- Rounding moves a number by half the spacing at most. -/
theorem nearestDouble_error_le (n : Nat) :
    2 * n ≤ 2 * nearestDouble n + doubleSpacing n ∧
      2 * nearestDouble n ≤ 2 * n + doubleSpacing n := by
  have hdiv := Nat.div_add_mod n (doubleSpacing n)
  rw [Nat.mul_comm] at hdiv
  have hrest := Nat.mod_lt n (doubleSpacing_pos n)
  simp only [nearestDouble, Bool.or_eq_true, Bool.and_eq_true, decide_eq_true_eq]
  generalize n / doubleSpacing n = below at *
  generalize n % doubleSpacing n = rest at *
  generalize doubleSpacing n = unit at *
  split
  · rw [Nat.add_mul, Nat.one_mul]
    omega
  · omega

/-- No digit is lost: what is not in the significand is left over. -/
theorem significand_suffix (m : Nat) (ds : List Char) : (significand m ds).2 <:+ ds := by
  induction ds generalizing m with
  | nil => simp [significand]
  | cons c cs ih =>
    simp only [significand]
    split
    · exact (ih _).trans (List.suffix_cons c cs)
    · exact List.suffix_refl _

end Json
end BuildFeed
