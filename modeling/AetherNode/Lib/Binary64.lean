import Mathlib.Data.Int.Log
import Mathlib.Data.Rat.Floor
import Mathlib.Tactic.FieldSimp
import Mathlib.Tactic.Linarith
/-!
# Rounding to double precision

The finite values of a double are rationals, and an operation on doubles is
the exact operation followed by one rounding: to a multiple of the spacing at
the result, ties to the even multiple. `Accurate` is what an error analysis
needs of a rounding; exact arithmetic is the case without an error. The
exponent is not bounded above, so what would overflow is a large number here.
-/
namespace AetherNode.Lib.Binary64

/-- The nearest integer, and of two the even one. -/
def nearest (q : ℚ) : ℤ :=
  if q - ⌊q⌋ < 1 / 2 then ⌊q⌋
  else if 1 / 2 < q - ⌊q⌋ then ⌊q⌋ + 1
  else if ⌊q⌋ % 2 = 0 then ⌊q⌋ else ⌊q⌋ + 1

/-- The exponent of the spacing at `q`: 53 significant bits, and no finer than the smallest positive double. -/
def exponent (q : ℚ) : ℤ := max (Int.log 2 |q| - 52) (-1074)

/-- The double nearest to `q`. -/
def round (q : ℚ) : ℚ := nearest (q / 2 ^ exponent q) * 2 ^ exponent q

/-- A rounding off by at most `u` times the size of the value, and by `u` where the value is below one. -/
structure Accurate (fl : ℚ → ℚ) (u : ℚ) : Prop where
  nonneg : ∀ q, 0 ≤ q → 0 ≤ fl q
  error : ∀ q, |fl q - q| ≤ u * (|q| + 1)

section
variable {fl : ℚ → ℚ} {u : ℚ}

theorem Accurate.le (h : Accurate fl u) {q : ℚ} (hq : 0 ≤ q) : fl q ≤ q + u * (q + 1) := by
  have herror := h.error q
  rw [abs_of_nonneg hq] at herror
  linarith [(abs_le.1 herror).2]

/-- Three roundings in a row: a product is added to `x`, and one of its factors was rounded before. -/
theorem Accurate.add_mul_error (h : Accurate fl u) (hu : 0 ≤ u) (hsmall : u ≤ 1 / 8) {x d r : ℚ} (hx : 0 ≤ x)
    (hd : 0 ≤ d) (hr : 0 ≤ r) : |fl (x + fl (fl d * r)) - (x + d * r)| ≤ u * (4 * (x + d * r) + 2 * r + 3) := by
  have hflow : 0 ≤ d * r := mul_nonneg hd hr
  have hfactor : |fl d * r - d * r| ≤ u * (d * r + r) := by
    rw [← sub_mul, abs_mul, abs_of_nonneg hr]
    have herror := h.error d
    rw [abs_of_nonneg hd] at herror
    calc |fl d - d| * r ≤ u * (d + 1) * r := mul_le_mul_of_nonneg_right herror hr
      _ = u * (d * r + r) := by ring
  have hproduct : |fl (fl d * r) - fl d * r| ≤ u * (fl d * r + 1) := by
    have herror := h.error (fl d * r)
    rwa [abs_of_nonneg (mul_nonneg (h.nonneg d hd) hr)] at herror
  have hsum : |fl (x + fl (fl d * r)) - (x + fl (fl d * r))| ≤ u * (x + fl (fl d * r) + 1) := by
    have herror := h.error (x + fl (fl d * r))
    rwa [abs_of_nonneg (add_nonneg hx (h.nonneg _ (mul_nonneg (h.nonneg d hd) hr)))] at herror
  rw [abs_le] at *
  -- One rounding of what a rounding has added is small against `u`.
  have hsecond : u * (u * (d * r + r)) ≤ u * (1 / 8 * (d * r + r)) :=
    mul_le_mul_of_nonneg_left (mul_le_mul_of_nonneg_right hsmall (add_nonneg hflow hr)) hu
  have hupper : u * (fl d * r) ≤ u * (d * r + u * (d * r + r)) := mul_le_mul_of_nonneg_left (by linarith) hu
  have hlast : fl (fl d * r) ≤ d * r + u * (3 * (d * r) + 2 * r + 1) := by nlinarith
  have hthird : u * (u * (3 * (d * r) + 2 * r + 1)) ≤ u * (1 / 8 * (3 * (d * r) + 2 * r + 1)) :=
    mul_le_mul_of_nonneg_left (mul_le_mul_of_nonneg_right hsmall (by linarith)) hu
  have hlast' : u * fl (fl d * r) ≤ u * (d * r + u * (3 * (d * r) + 2 * r + 1)) := mul_le_mul_of_nonneg_left hlast hu
  constructor
  · nlinarith
  · nlinarith

end

theorem abs_nearest_sub_le (q : ℚ) : |(nearest q : ℚ) - q| ≤ 1 / 2 := by
  have hfloor := Int.floor_le q
  have hceil := Int.lt_floor_add_one q
  rw [abs_le]
  unfold nearest
  split_ifs <;> push_cast <;> constructor <;> linarith

theorem nearest_nonneg {q : ℚ} (h : 0 ≤ q) : 0 ≤ nearest q := by
  have hfloor : 0 ≤ ⌊q⌋ := Int.floor_nonneg.2 h
  unfold nearest
  split_ifs <;> omega

theorem abs_round_sub_le (q : ℚ) : |round q - q| ≤ 2 ^ exponent q / 2 := by
  have hspacing : (0 : ℚ) < 2 ^ exponent q := zpow_pos two_pos _
  have hmul : round q - q = (nearest (q / 2 ^ exponent q) - q / 2 ^ exponent q) * 2 ^ exponent q := by
    rw [round, sub_mul, div_mul_cancel₀ _ hspacing.ne']
  rw [hmul, abs_mul, abs_of_pos hspacing]
  have hhalf := mul_le_mul_of_nonneg_right (abs_nearest_sub_le (q / 2 ^ exponent q)) hspacing.le
  linarith

/-- Half the spacing, in proportion to the value or to one. -/
theorem half_spacing_le (q : ℚ) : (2 : ℚ) ^ exponent q / 2 ≤ 1 / 2 ^ 53 * (|q| + 1) := by
  have habs := abs_nonneg q
  have hfine : (2 : ℚ) ^ (-52 : ℤ) / 2 = 1 / 2 ^ 53 := by norm_num
  have hscale : (2 : ℚ) ^ exponent q ≤ (|q| + 1) * 2 ^ (-52 : ℤ) := by
    rcases max_choice (Int.log 2 |q| - 52) (-1074) with hmax | hmax <;> rw [exponent, hmax]
    · have hlog : (2 : ℚ) ^ Int.log 2 |q| ≤ |q| + 1 := by
        rcases habs.eq_or_lt with hzero | hpos
        · rw [← hzero, Int.log_zero_right]
          norm_num
        · have hle : ((2 : ℕ) : ℚ) ^ Int.log 2 |q| ≤ |q| := Int.zpow_log_le_self one_lt_two hpos
          exact hle.trans (by linarith)
      rw [sub_eq_add_neg, zpow_add₀ two_ne_zero]
      exact mul_le_mul_of_nonneg_right hlog (zpow_nonneg zero_le_two _)
    · have htiny : (2 : ℚ) ^ (-1074 : ℤ) ≤ 2 ^ (-52 : ℤ) := zpow_le_zpow_right₀ one_le_two (by norm_num)
      have hone : (2 : ℚ) ^ (-52 : ℤ) ≤ (|q| + 1) * 2 ^ (-52 : ℤ) :=
        le_mul_of_one_le_left (zpow_nonneg zero_le_two _) (by linarith)
      exact htiny.trans hone
  calc (2 : ℚ) ^ exponent q / 2 ≤ (|q| + 1) * 2 ^ (-52 : ℤ) / 2 := div_le_div_of_nonneg_right hscale zero_le_two
    _ = 1 / 2 ^ 53 * (|q| + 1) := by rw [mul_div_assoc, hfine, mul_comm]

theorem round_accurate : Accurate round (1 / 2 ^ 53) where
  nonneg q h := by
    have hspacing : (0 : ℚ) < 2 ^ exponent q := zpow_pos two_pos _
    have hnearest : 0 ≤ nearest (q / 2 ^ exponent q) := nearest_nonneg (div_nonneg h hspacing.le)
    exact mul_nonneg (by exact_mod_cast hnearest) hspacing.le
  error q := (abs_round_sub_le q).trans (half_spacing_le q)

end AetherNode.Lib.Binary64
