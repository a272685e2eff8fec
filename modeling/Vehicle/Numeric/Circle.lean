import Mathlib.Analysis.Complex.Norm
import Mathlib.Algebra.Order.Field.Basic
import Mathlib.Tactic.FieldSimp
import Mathlib.Tactic.LinearCombination
import Mathlib.Tactic.Linarith

/-!
# Circles through three points

Points of the plane over a field, as pairs. The points equidistant from two points satisfy a linear
equation (`sqDist_eq_iff`), so the centre of the circle through three points is the solution of two
of them, by Cramer's rule (`equidistant_iff`); there is exactly one when the points are not
collinear. Over the reals, the distances of a point from two centres differ by their distance at
most (`abs_sqrt_sqDist_sub_le`).
-/

namespace Vehicle.Numeric

section Ring

variable {R : Type*} [CommRing R]

/-- The squared distance. -/
def sqDist (p q : R × R) : R := (p.1 - q.1) * (p.1 - q.1) + (p.2 - q.2) * (p.2 - q.2)

/-- Twice the area of a triangle, with the orientation; zero for collinear points. -/
def area (p q r : R × R) : R := (q.1 - p.1) * (r.2 - q.2) - (r.1 - q.1) * (q.2 - p.2)

theorem area_swap_left (p q r : R × R) : area q p r = -area p q r := by
  unfold area
  ring

theorem area_swap_right (p q r : R × R) : area p r q = -area p q r := by
  unfold area
  ring

end Ring

section Field

variable {K : Type*} [Field K]

/-- **Cramer's rule** for two equations `a x + b y = e` and `c x + d y = f`. -/
theorem cramer_iff {a b c d e f x y : K} (hdet : b * c - a * d ≠ 0) :
    (a * x + b * y = e ∧ c * x + d * y = f) ↔
      x = -(d * e - b * f) / (b * c - a * d) ∧ y = -(a * f - c * e) / (b * c - a * d) := by
  rw [eq_div_iff hdet, eq_div_iff hdet]
  constructor
  · rintro ⟨he, hf⟩
    constructor
    · linear_combination -d * he + b * hf
    · linear_combination c * he - a * hf
  · rintro ⟨hx, hy⟩
    constructor
    · refine mul_right_cancel₀ hdet ?_
      linear_combination a * hx + b * hy
    · refine mul_right_cancel₀ hdet ?_
      linear_combination c * hx + d * hy

/-- A point is equidistant from two points when it lies on a line. -/
theorem sqDist_eq_iff (h2 : (2 : K) ≠ 0) {o p q : K × K} :
    sqDist o p = sqDist o q ↔ (p.1 - q.1) * o.1 + (p.2 - q.2) * o.2 =
      (p.1 * p.1 - q.1 * q.1 + (p.2 * p.2 - q.2 * q.2)) / 2 := by
  rw [eq_div_iff h2]
  unfold sqDist
  constructor
  · intro h
    linear_combination -h
  · intro h
    linear_combination -h

/-- The centre of the circle through three points. -/
def circumcentre (p q r : K × K) : K × K :=
  let a := p.1 - q.1
  let b := p.2 - q.2
  let c := p.1 - r.1
  let d := p.2 - r.2
  let e := (p.1 * p.1 - q.1 * q.1 + (p.2 * p.2 - q.2 * q.2)) / 2
  let f := (p.1 * p.1 - r.1 * r.1 + (p.2 * p.2 - r.2 * r.2)) / 2
  (-(d * e - b * f) / (b * c - a * d), -(a * f - c * e) / (b * c - a * d))

/-- The determinant of the equations. -/
theorem det_eq_neg_area (p q r : K × K) :
    (p.2 - q.2) * (p.1 - r.1) - (p.1 - q.1) * (p.2 - r.2) = -area p q r := by
  unfold area
  ring

/-- **The circle through three points**: its centre is the one point equidistant from them. -/
theorem equidistant_iff (h2 : (2 : K) ≠ 0) {o p q r : K × K} (h : area p q r ≠ 0) :
    (sqDist o p = sqDist o q ∧ sqDist o p = sqDist o r) ↔ o = circumcentre p q r := by
  have hdet := neg_ne_zero.mpr h
  rw [← det_eq_neg_area] at hdet
  rw [sqDist_eq_iff h2, sqDist_eq_iff h2, cramer_iff hdet, Prod.ext_iff]
  rfl

end Field

section Real

/-- The distance as the norm of a complex number. -/
theorem sqrt_sqDist (p q : ℝ × ℝ) :
    √(sqDist p q) = ‖(⟨p.1 - q.1, p.2 - q.2⟩ : ℂ)‖ := by
  rw [Complex.norm_eq_sqrt_sq_add_sq, sqDist, sq, sq]

/-- **Distances from two centres.** -/
theorem abs_sqrt_sqDist_sub_le (o o' p : ℝ × ℝ) :
    |√(sqDist o p) - √(sqDist o' p)| ≤ √(sqDist o o') := by
  rw [sqrt_sqDist, sqrt_sqDist, sqrt_sqDist]
  have hsub : (⟨o.1 - o'.1, o.2 - o'.2⟩ : ℂ) =
      ⟨o.1 - p.1, o.2 - p.2⟩ - ⟨o'.1 - p.1, o'.2 - p.2⟩ := by
    apply Complex.ext <;> simp
  rw [hsub]
  exact abs_norm_sub_norm_le _ _

/-- A centre moved by less than one in both coordinates. -/
theorem sqrt_sqDist_lt {o o' : ℝ × ℝ} (h1 : |o.1 - o'.1| < 1) (h2 : |o.2 - o'.2| < 1) :
    √(sqDist o o') < √2 := by
  have hsq1 : (o.1 - o'.1) ^ 2 < 1 := (sq_lt_one_iff_abs_lt_one _).mpr h1
  have hsq2 : (o.2 - o'.2) ^ 2 < 1 := (sq_lt_one_iff_abs_lt_one _).mpr h2
  refine Real.sqrt_lt_sqrt ?_ ?_
  · exact add_nonneg (mul_self_nonneg _) (mul_self_nonneg _)
  · unfold sqDist
    rw [← sq, ← sq]
    linarith

end Real

end Vehicle.Numeric
