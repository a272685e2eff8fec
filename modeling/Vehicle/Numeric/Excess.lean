import Mathlib.Algebra.Order.Field.Basic
import Mathlib.Tactic.Linarith
import Mathlib.Tactic.Ring

/-!
# How far a value lies outside of a range

Blending a value with one inside of the range brings it nearer by the factor of the blend
(`excess_blend_le`), so that repeated blending approaches the range geometrically, and never moves
it by more than what it lies outside and a bound on the step (`abs_blend_sub_le`).
-/

namespace Vehicle.Numeric

variable {K : Type*} [Field K] [LinearOrder K] {lo hi x c e f : K}

/-- How far `x` lies outside of the range from `lo` to `hi`. -/
def excess (lo hi x : K) : K := max (max (lo - x) (x - hi)) 0

theorem excess_nonneg : 0 ≤ excess lo hi x := le_max_right _ _

theorem sub_le_excess (lo hi x : K) : lo - x ≤ excess lo hi x := le_max_of_le_left (le_max_left _ _)

theorem sub_le_excess' (lo hi x : K) : x - hi ≤ excess lo hi x :=
  le_max_of_le_left (le_max_right _ _)

theorem excess_le (h1 : lo - x ≤ e) (h2 : x - hi ≤ e) (he : 0 ≤ e) : excess lo hi x ≤ e :=
  max_le (max_le h1 h2) he

variable [IsStrictOrderedRing K]

/-- **Blending with a value inside of the range** leaves at most the factor of what was outside. -/
theorem excess_blend_le (hf : 0 ≤ f) (hf' : f ≤ 1) (h1 : lo ≤ c) (h2 : c ≤ hi) :
    excess lo hi (x * f + c * (1 - f)) ≤ f * excess lo hi x := by
  have hg : 0 ≤ 1 - f := by linarith
  refine excess_le ?_ ?_ (mul_nonneg hf excess_nonneg)
  · have hx := mul_le_mul_of_nonneg_left (sub_le_excess lo hi x) hf
    have hc := mul_le_mul_of_nonneg_right h1 hg
    calc lo - (x * f + c * (1 - f)) = f * (lo - x) + (lo * (1 - f) - c * (1 - f)) := by ring
      _ ≤ f * excess lo hi x := by linarith
  · have hx := mul_le_mul_of_nonneg_left (sub_le_excess' lo hi x) hf
    have hc := mul_le_mul_of_nonneg_right h2 hg
    calc x * f + c * (1 - f) - hi = f * (x - hi) + (c * (1 - f) - hi * (1 - f)) := by ring
      _ ≤ f * excess lo hi x := by linarith

/-- A blend moves a value by the rest of the factor of what the other value is away. -/
theorem abs_blend_sub_le (hf' : f ≤ 1) (h : |c - x| ≤ e) :
    |x * f + c * (1 - f) - x| ≤ (1 - f) * e := by
  have hg : 0 ≤ 1 - f := by linarith
  calc |x * f + c * (1 - f) - x| = |(1 - f) * (c - x)| := by congr 1; ring
    _ = (1 - f) * |c - x| := by rw [abs_mul, abs_of_nonneg hg]
    _ ≤ (1 - f) * e := mul_le_mul_of_nonneg_left h hg

end Vehicle.Numeric
