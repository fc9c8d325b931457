import Mathlib.Algebra.Order.Round
import Mathlib.Data.Int.Log
import Mathlib.Data.Rat.Floor
import Mathlib.Tactic.FieldSimp
import Mathlib.Tactic.Linarith

/-!
# De1Soc.Double

Arithmetic in double precision, as rationals.

A sum, product or quotient of doubles is the exact result rounded to 53
significant bits, ties to even (`round`).  The exponent is not bounded here: what
is 2^1024 or more has to be told apart by who uses it, and there is nothing
subnormal.  A result of the form `k / 2^n` is exact as long as `k` has at most 53
bits (`round_div_two_pow`); no rounding more than doubles a number (`round_le`).
-/

namespace Double

/-- The nearest integer, ties to the even one. -/
def nearest (x : ℚ) : ℤ :=
  if Int.fract x < 1 / 2 then ⌊x⌋
  else if 1 / 2 < Int.fract x then ⌊x⌋ + 1
  else if Even ⌊x⌋ then ⌊x⌋
  else ⌊x⌋ + 1

/-- The value of the last of 53 bits. -/
def ulp (x : ℚ) : ℚ := 2 ^ (Int.log 2 |x| - 52)

/-- The double nearest to `x`. -/
def round (x : ℚ) : ℚ := nearest (x / ulp x) * ulp x

theorem nearest_intCast (k : ℤ) : nearest (k : ℚ) = k := by
  rw [nearest, Int.fract_intCast, if_pos (by norm_num), Int.floor_intCast]

theorem ulp_pos (x : ℚ) : 0 < ulp x := zpow_pos (by norm_num) _

theorem nearest_le (x : ℚ) : (nearest x : ℚ) ≤ x + 1 := by
  have hfloor := Int.floor_le x
  unfold nearest
  split_ifs <;> push_cast <;> linarith

/-- The last place is no larger than the number. -/
theorem ulp_le {x : ℚ} (hx : 0 < x) : ulp x ≤ x := by
  calc ulp x ≤ 2 ^ Int.log 2 |x| := zpow_le_zpow_right₀ (by norm_num) (by omega)
    _ ≤ |x| := Int.zpow_log_le_self Nat.one_lt_two (abs_pos.mpr hx.ne')
    _ = x := abs_of_pos hx

theorem round_nonneg {x : ℚ} (hx : 0 ≤ x) : 0 ≤ round x := by
  have hfloor : 0 ≤ ⌊x / ulp x⌋ := Int.floor_nonneg.mpr (div_nonneg hx (ulp_pos x).le)
  refine mul_nonneg (Int.cast_nonneg ?_) (ulp_pos x).le
  unfold nearest
  split_ifs <;> omega

/-- Rounding at most doubles a number. -/
theorem round_le {x : ℚ} (hx : 0 ≤ x) : round x ≤ 2 * x := by
  obtain rfl | hpos := hx.eq_or_lt
  · simp [round, nearest]
  · have hulp := ulp_pos x
    calc round x ≤ (x / ulp x + 1) * ulp x :=
          mul_le_mul_of_nonneg_right (nearest_le _) hulp.le
      _ = x + ulp x := by field_simp
      _ ≤ 2 * x := by linarith [ulp_le hpos]

/-- What is an integer in units of the last place is a double. -/
theorem round_of_div_ulp {x : ℚ} {k : ℤ} (h : x / ulp x = k) : round x = x := by
  have hne : ulp x ≠ 0 := (ulp_pos x).ne'
  rw [round, h, nearest_intCast, ← h, div_mul_cancel₀ x hne]

/-- Below `2^(53-n)` the last place is a fraction of `1/2^n`. -/
theorem exists_ulp {x : ℚ} (n : ℕ) (hx : x ≠ 0) (h : |x| < 2 ^ (53 - n : ℤ)) :
    ∃ j : ℕ, ulp x = 1 / 2 ^ (n + j) := by
  have hlog : Int.log 2 |x| < 53 - n := (Int.lt_zpow_iff_log_lt Nat.one_lt_two (abs_pos.mpr hx)).mp h
  obtain ⟨j, hj⟩ : ∃ j : ℕ, Int.log 2 |x| - 52 = -((n + j : ℕ) : ℤ) :=
    ⟨(52 - n - Int.log 2 |x|).toNat, by omega⟩
  refine ⟨j, ?_⟩
  rw [ulp, hj, zpow_neg, zpow_natCast, one_div]

/-- **Fractions of at most 53 bits are exact.** -/
theorem round_div_two_pow (k : ℤ) (n : ℕ) (h : |k| < 2 ^ 53) :
    round (k / 2 ^ n) = k / 2 ^ n := by
  by_cases hk : k = 0
  · subst hk
    rw [Int.cast_zero, zero_div]
    exact round_of_div_ulp (k := 0) (by rw [zero_div, Int.cast_zero])
  · have hne : (k : ℚ) / 2 ^ n ≠ 0 := div_ne_zero (Int.cast_ne_zero.mpr hk) (by positivity)
    have hlt : |(k : ℚ) / 2 ^ n| < 2 ^ (53 - n : ℤ) := by
      have hk' : |(k : ℚ)| < 2 ^ 53 := by exact_mod_cast h
      rw [abs_div, abs_of_pos (by positivity : (0 : ℚ) < 2 ^ n), zpow_sub₀ (by norm_num),
        zpow_natCast, div_lt_div_iff_of_pos_right (by positivity)]
      exact_mod_cast hk'
    obtain ⟨j, hulp⟩ := exists_ulp n hne hlt
    refine round_of_div_ulp (k := k * 2 ^ j) ?_
    rw [hulp, pow_add]
    push_cast
    field_simp

/-- **Integers of at most 53 bits are exact.** -/
theorem round_natCast (k : ℕ) (h : k < 2 ^ 53) : round k = k := by
  have hround := round_div_two_pow (k : ℤ) 0 (by rw [abs_of_nonneg (by omega)]; omega)
  simpa using hround

end Double
