import Vehicle.Numeric.Circle
import Vehicle.Recovery.Actuator

/-!
# recovery: the curvature of the lane

`Distance`, `Collinear` and `Curvature` of `image.cpp`, on integer points, with the `double`s exact;
a division by zero gives an infinity, or a NaN, which is equal to nothing. The test for collinear
points compares the slopes of two sides and is exact unless two of the points coincide
(`exactTest_iff`). The centre is that of the circle through the three points, with its fractions
dropped, so the radius is right up to the square root of two (`curvature_radius`).
-/

namespace Vehicle.Recovery.Image

open Vehicle.Numeric

/-! ### `image.cpp` -/

/-- `cv::Point`. -/
structure Point where
  x : ℤ
  y : ℤ
  deriving DecidableEq, Repr

/-- A `double`. -/
inductive Double
  | finite (x : ℚ)
  | inf (negative : Bool)
  | nan
  deriving DecidableEq, Repr

/-- The quotient of two integers of type `double`. -/
def Double.div (x y : ℤ) : Double :=
  if y = 0 then if x = 0 then .nan else .inf (decide (x < 0)) else .finite (x / y)

/-- `==`. -/
def Double.eq : Double → Double → Bool
  | .finite x, .finite y => decide (x = y)
  | .inf m, .inf n => decide (m = n)
  | _, _ => false

/-- `x2 + y2` of `Distance`. -/
def distanceSq (p1 p2 : Point) : ℤ :=
  (p1.x - p2.x) * (p1.x - p2.x) + (p1.y - p2.y) * (p1.y - p2.y)

/-- `Distance`. -/
noncomputable def distance (p1 p2 : Point) : ℝ := √(distanceSq p1 p2)

/-- `Collinear`. -/
def collinear (p1 p2 p3 : Point) : ℤ :=
  if p1.x = p2.x ∧ p2.x = p3.x then 1
  else
    let kx1 := p2.x - p1.x
    let kx2 := p2.x - p3.x
    let ky1 := p2.y - p1.y
    let ky2 := p2.y - p3.y
    let k1 := Double.div ky1 kx1
    let k2 := Double.div ky2 kx2
    if k1.eq k2 then 1 else 0

/-- The values of type `double` in `Curvature`. -/
structure Coefficients where
  a : ℚ
  b : ℚ
  c : ℚ
  d : ℚ
  e : ℚ
  f : ℚ

/-- The coefficients of the equations for the centre. -/
def coefficients (p1 p2 p3 : Point) : Coefficients where
  a := (p1.x - p2.x : ℤ)
  b := (p1.y - p2.y : ℤ)
  c := (p1.x - p3.x : ℤ)
  d := (p1.y - p3.y : ℤ)
  e := (p1.x * p1.x - p2.x * p2.x + (p1.y * p1.y - p2.y * p2.y) : ℤ) / 2
  f := (p1.x * p1.x - p3.x * p3.x + (p1.y * p1.y - p3.y * p3.y) : ℤ) / 2

namespace Coefficients

variable (k : Coefficients)

/-- `det`. -/
def det : ℚ := k.b * k.c - k.a * k.d

/-- The centre before its conversion to integers. -/
def centre : ℚ × ℚ :=
  (-(k.d * k.e - k.b * k.f) / k.det, -(k.a * k.f - k.c * k.e) / k.det)

/-- `p0`. -/
def p0 : Point := ⟨truncate k.centre.1, truncate k.centre.2⟩

end Coefficients

/-- **`Curvature`**, which returns the radius. -/
noncomputable def curvature (p1 p2 p3 : Point) : ℝ :=
  if collinear p1 p2 p3 = 1 then 0 else distance (coefficients p1 p2 p3).p0 p1

/-! ### The test for collinear points -/

/-- A point as a pair. -/
def Point.toProd (p : Point) : ℤ × ℤ := (p.x, p.y)

/-- The points are collinear when this is zero. -/
def cross (p1 p2 p3 : Point) : ℤ := area p1.toProd p2.toProd p3.toProd

section Collinear

variable {p1 p2 p3 : Point}

theorem cross_eq_zero_iff :
    cross p1 p2 p3 = 0 ↔ (p2.x - p1.x) * (p3.y - p2.y) = (p3.x - p2.x) * (p2.y - p1.y) :=
  sub_eq_zero

/-- Slopes that are both finite. -/
theorem div_eq_div_iff_cross (h1 : p1.x ≠ p2.x) (h2 : p2.x ≠ p3.x) :
    (Double.div (p2.y - p1.y) (p2.x - p1.x)).eq (Double.div (p2.y - p3.y) (p2.x - p3.x)) ↔
      cross p1 p2 p3 = 0 := by
  have hx1 : p2.x - p1.x ≠ 0 := sub_ne_zero.mpr h1.symm
  have hx2 : p2.x - p3.x ≠ 0 := sub_ne_zero.mpr h2
  rw [Double.div, if_neg hx1, Double.div, if_neg hx2, Double.eq, decide_eq_true_iff,
    div_eq_div_iff (by exact_mod_cast hx1) (by exact_mod_cast hx2), cross_eq_zero_iff]
  constructor
  · intro h
    have hint : (p2.y - p1.y) * (p2.x - p3.x) = (p2.y - p3.y) * (p2.x - p1.x) := by
      exact_mod_cast h
    linear_combination hint
  · intro h
    have hint : (p2.y - p1.y) * (p2.x - p3.x) = (p2.y - p3.y) * (p2.x - p1.x) := by
      linear_combination h
    exact_mod_cast hint

/-- A slope of a vertical side differs from one of another side. -/
theorem div_ne_of_vertical (y1 y2 : ℤ) {x1 x2 : ℤ} (h1 : x1 = 0) (h2 : x2 ≠ 0) :
    (Double.div y1 x1).eq (Double.div y2 x2) = false ∧
      (Double.div y2 x2).eq (Double.div y1 x1) = false := by
  rw [Double.div, if_pos h1, Double.div, if_neg h2]
  split <;> exact ⟨rfl, rfl⟩

/-- **What `Collinear` tests.** -/
theorem collinear_eq_one_iff :
    collinear p1 p2 p3 = 1 ↔
      (p1.x = p2.x ∧ p2.x = p3.x) ∨ (p1.x ≠ p2.x ∧ p2.x ≠ p3.x) ∧ cross p1 p2 p3 = 0 := by
  unfold collinear
  dsimp only
  by_cases h1 : p1.x = p2.x
  · by_cases h2 : p2.x = p3.x
    · rw [if_pos ⟨h1, h2⟩]
      exact iff_of_true rfl (Or.inl ⟨h1, h2⟩)
    · -- the first side is vertical
      have hk := (div_ne_of_vertical (p2.y - p1.y) (p2.y - p3.y)
        (sub_eq_zero.mpr h1.symm) (sub_ne_zero.mpr h2)).1
      rw [if_neg (fun hv => h2 hv.2), hk]
      exact iff_of_false (by simp) (by simp [h1, h2])
  · rw [if_neg (fun hv => h1 hv.1)]
    by_cases h2 : p2.x = p3.x
    · -- the second side is vertical
      have hk := (div_ne_of_vertical (p2.y - p3.y) (p2.y - p1.y)
        (sub_eq_zero.mpr h2) (sub_ne_zero.mpr (Ne.symm h1))).2
      rw [hk]
      refine iff_of_false (by simp) ?_
      rintro (hv | hv)
      · exact h1 hv.1
      · exact hv.1.2 h2
    · rw [← div_eq_div_iff_cross h1 h2]
      simp [h1, h2]

/-- It answers 0 or 1. -/
theorem collinear_mem (p1 p2 p3 : Point) : collinear p1 p2 p3 = 0 ∨ collinear p1 p2 p3 = 1 := by
  unfold collinear
  dsimp only
  split
  · exact Or.inr rfl
  · split
    · exact Or.inr rfl
    · exact Or.inl rfl

/-- Only collinear points pass the test. -/
theorem cross_of_collinear (h : collinear p1 p2 p3 = 1) : cross p1 p2 p3 = 0 := by
  rcases collinear_eq_one_iff.mp h with ⟨h1, h2⟩ | ⟨-, h⟩
  · rw [cross_eq_zero_iff, h1, h2]
    ring
  · exact h

theorem ext_iff : p1 = p2 ↔ p1.x = p2.x ∧ p1.y = p2.y := by
  cases p1
  cases p2
  simp

/-- **When the test is exact on points in this order**: unless two that follow one another coincide,
off the vertical through the third. -/
theorem collinear_iff_of_ne (h : (p1 ≠ p2 ∧ p2 ≠ p3) ∨ (p1.x = p2.x ∧ p2.x = p3.x)) :
    collinear p1 p2 p3 = 1 ↔ cross p1 p2 p3 = 0 := by
  refine ⟨cross_of_collinear, fun hcross => collinear_eq_one_iff.mpr ?_⟩
  rcases h with ⟨h12, h23⟩ | h
  · rw [cross_eq_zero_iff] at hcross
    by_cases h1 : p1.x = p2.x
    · -- a vertical side of positive length
      left
      have hy : p2.y - p1.y ≠ 0 := fun hy => h12 (ext_iff.mpr ⟨h1, by omega⟩)
      rw [h1, sub_self, zero_mul, zero_eq_mul] at hcross
      exact ⟨h1, by have := hcross.resolve_right hy; omega⟩
    · by_cases h2 : p2.x = p3.x
      · have hy : p3.y - p2.y ≠ 0 := fun hy => h23 (ext_iff.mpr ⟨h2, by omega⟩)
        rw [h2, sub_self, zero_mul, mul_eq_zero] at hcross
        exact absurd (hcross.resolve_right hy) (by omega)
      · exact Or.inr ⟨⟨h1, h2⟩, cross_eq_zero_iff.mpr hcross⟩
  · exact Or.inl h

/-- The determinant of `Curvature`. -/
theorem det_eq (p1 p2 p3 : Point) : (coefficients p1 p2 p3).det = -(cross p1 p2 p3 : ℚ) := by
  unfold Coefficients.det coefficients cross area Point.toProd
  push_cast
  ring

theorem det_eq_zero_iff : (coefficients p1 p2 p3).det = 0 ↔ cross p1 p2 p3 = 0 := by
  rw [det_eq, neg_eq_zero, Int.cast_eq_zero]

/-- The other orders of three points. -/
def orders (p1 p2 p3 : Point) : List (Point × Point × Point) :=
  [(p1, p3, p2), (p2, p1, p3), (p2, p3, p1), (p3, p1, p2), (p3, p2, p1)]

/-- **The test for collinear points is exact**, keeps `Curvature` from a division by zero, and does
not depend on the order of the points. -/
structure ExactTest (p1 p2 p3 : Point) : Prop where
  exact : collinear p1 p2 p3 = 1 ↔ (p2.x - p1.x) * (p3.y - p2.y) = (p3.x - p2.x) * (p2.y - p1.y)
  guards : collinear p1 p2 p3 ≠ 1 → (coefficients p1 p2 p3).det ≠ 0
  symmetric : ∀ q ∈ orders p1 p2 p3, collinear q.1 q.2.1 q.2.2 = collinear p1 p2 p3

/-- The points are pairwise distinct, or stand above one another. -/
def Apart (p1 p2 p3 : Point) : Prop :=
  (p1 ≠ p2 ∧ p2 ≠ p3 ∧ p1 ≠ p3) ∨ (p1.x = p2.x ∧ p2.x = p3.x)

theorem Apart.swap_left (h : Apart p1 p2 p3) : Apart p2 p1 p3 := by
  rcases h with ⟨h12, h23, h13⟩ | ⟨h1, h2⟩
  · exact Or.inl ⟨h12.symm, h13, h23⟩
  · exact Or.inr ⟨h1.symm, h1.trans h2⟩

theorem Apart.swap_right (h : Apart p1 p2 p3) : Apart p1 p3 p2 := by
  rcases h with ⟨h12, h23, h13⟩ | ⟨h1, h2⟩
  · exact Or.inl ⟨h13, h23.symm, h12⟩
  · exact Or.inr ⟨h1.trans h2, h2.symm⟩

theorem Apart.collinear_iff (h : Apart p1 p2 p3) :
    collinear p1 p2 p3 = 1 ↔ cross p1 p2 p3 = 0 :=
  collinear_iff_of_ne (h.imp_left fun h => ⟨h.1, h.2.1⟩)

/-- A neighbouring order. -/
theorem Apart.collinear_swap_left (h : Apart p1 p2 p3) :
    collinear p2 p1 p3 = collinear p1 p2 p3 := by
  have hcross : cross p2 p1 p3 = -cross p1 p2 p3 := area_swap_left _ _ _
  have hiff := h.swap_left.collinear_iff
  rw [hcross, neg_eq_zero, ← h.collinear_iff] at hiff
  have h1 := collinear_mem p1 p2 p3
  have h2 := collinear_mem p2 p1 p3
  omega

theorem Apart.collinear_swap_right (h : Apart p1 p2 p3) :
    collinear p1 p3 p2 = collinear p1 p2 p3 := by
  have hcross : cross p1 p3 p2 = -cross p1 p2 p3 := area_swap_right _ _ _
  have hiff := h.swap_right.collinear_iff
  rw [hcross, neg_eq_zero, ← h.collinear_iff] at hiff
  have h1 := collinear_mem p1 p2 p3
  have h2 := collinear_mem p1 p3 p2
  omega

/-- Points of which two coincide are collinear. -/
theorem cross_of_eq (h : p1 = p2 ∨ p2 = p3 ∨ p1 = p3) : cross p1 p2 p3 = 0 := by
  rw [cross_eq_zero_iff]
  rcases h with rfl | rfl | rfl
  · ring
  · ring
  · ring

/-- The test fails on points that coincide, because a slope is 0/0. -/
theorem not_collinear_of_eq (hvert : ¬ (p1.x = p2.x ∧ p2.x = p3.x)) (h : p1 = p2 ∨ p2 = p3) :
    collinear p1 p2 p3 ≠ 1 := by
  intro hcol
  rcases collinear_eq_one_iff.mp hcol with hv | ⟨⟨h1, h2⟩, -⟩
  · exact hvert hv
  · rcases h with rfl | rfl
    · exact h1 rfl
    · exact h2 rfl

theorem ExactTest.apart (h : ExactTest p1 p2 p3) : Apart p1 p2 p3 := by
  by_contra hno
  have hvert : ¬ (p1.x = p2.x ∧ p2.x = p3.x) := fun hv => hno (Or.inr hv)
  have hexact : cross p1 p2 p3 = 0 → collinear p1 p2 p3 = 1 := fun hcross =>
    h.exact.mpr (cross_eq_zero_iff.mp hcross)
  by_cases hrep : p1 = p2 ∨ p2 = p3
  · exact not_collinear_of_eq hvert hrep (hexact (cross_of_eq (hrep.imp_right Or.inl)))
  · -- the first and the third coincide, and the test fails in another order
    obtain ⟨h12, h23⟩ := not_or.mp hrep
    have h13 : p1 = p3 := by
      by_contra h13
      exact hno (Or.inl ⟨h12, h23, h13⟩)
    subst h13
    have hsame := h.symmetric (p1, p1, p2) (by simp [orders])
    rw [hexact (cross_of_eq (Or.inr (Or.inr rfl)))] at hsame
    exact not_collinear_of_eq (fun hv => hvert ⟨hv.2, hv.2.symm⟩) (Or.inl rfl) hsame

/-- **When the test for collinear points is exact**, guards the division and does not depend on the
order: when the points are pairwise distinct, or all of one column. -/
theorem exactTest_iff (p1 p2 p3 : Point) : ExactTest p1 p2 p3 ↔ Apart p1 p2 p3 := by
  constructor
  · exact ExactTest.apart
  · intro h
    refine ⟨h.collinear_iff.trans cross_eq_zero_iff, fun hcol => ?_, ?_⟩
    · rw [Ne, det_eq_zero_iff, ← h.collinear_iff]
      exact hcol
    · have h132 := h.collinear_swap_right
      have h213 := h.collinear_swap_left
      have h231 := h.swap_left.collinear_swap_right
      have h312 := h.swap_right.collinear_swap_left
      have h321 := h.swap_right.swap_left.collinear_swap_right
      simp only [orders, List.forall_mem_cons, List.not_mem_nil, IsEmpty.forall_iff, implies_true,
        and_true]
      exact ⟨h132, h213, h231.trans h213, h312.trans h132, (h321.trans h312).trans h132⟩

/-- A point twice: the slopes are 0/0, and `Curvature` divides by zero. -/
theorem collinear_not_exact : ¬ ∀ p1 p2 p3 : Point, ExactTest p1 p2 p3 := by
  intro h
  have hexact := (h ⟨0, 0⟩ ⟨0, 0⟩ ⟨1, 0⟩).exact
  revert hexact
  decide

end Collinear

/-! ### The radius -/

theorem truncate_of_nonpos {x : ℚ} (h : x ≤ 0) : truncate x = ⌈x⌉ := by
  have hneg := truncate_eq_floor (neg_nonneg.mpr h)
  rw [truncate, Rat.num_neg_eq_neg_num, Rat.den_neg_eq_den, Int.neg_tdiv, Int.floor_neg] at hneg
  rw [truncate]
  exact neg_injective hneg

/-- Less than one is dropped. -/
theorem abs_truncate_sub_lt (x : ℚ) : |(truncate x : ℚ) - x| < 1 := by
  rw [abs_lt]
  rcases le_total 0 x with h | h
  · rw [truncate_eq_floor h]
    have h1 := Int.floor_le x
    have h2 := Int.lt_floor_add_one x
    constructor <;> linarith
  · rw [truncate_of_nonpos h]
    have h1 := Int.le_ceil x
    have h2 := Int.ceil_lt_add_one x
    constructor <;> linarith

section Radius

variable {p1 p2 p3 : Point}

/-- A point in the plane over the rationals and over the reals. -/
def Point.toRat (p : Point) : ℚ × ℚ := (p.x, p.y)

noncomputable def Point.toReal (p : Point) : ℝ × ℝ := (p.x, p.y)

/-- The centre of the circle, over the rationals. -/
def centre (p1 p2 p3 : Point) : ℚ × ℚ := (coefficients p1 p2 p3).centre

theorem centre_eq (p1 p2 p3 : Point) :
    centre p1 p2 p3 = circumcentre p1.toRat p2.toRat p3.toRat := by
  unfold centre Coefficients.centre Coefficients.det coefficients circumcentre Point.toRat
  push_cast
  rfl

theorem centre_cast (p1 p2 p3 : Point) :
    (((centre p1 p2 p3).1 : ℝ), ((centre p1 p2 p3).2 : ℝ)) =
      circumcentre p1.toReal p2.toReal p3.toReal := by
  rw [centre_eq]
  unfold circumcentre Point.toRat Point.toReal
  push_cast
  rfl

theorem area_toRat : area p1.toRat p2.toRat p3.toRat = cross p1 p2 p3 := by
  unfold area Point.toRat cross area Point.toProd
  push_cast
  rfl

theorem area_toReal : area p1.toReal p2.toReal p3.toReal = cross p1 p2 p3 := by
  unfold area Point.toReal cross area Point.toProd
  push_cast
  rfl

/-- **A circle through the three points.** -/
structure Through (p1 p2 p3 : Point) (c : ℝ × ℝ) (r : ℝ) : Prop where
  nonneg : 0 ≤ r
  p1 : sqDist c p1.toReal = r ^ 2
  p2 : sqDist c p2.toReal = r ^ 2
  p3 : sqDist c p3.toReal = r ^ 2

/-- The circle through three points that are not collinear. -/
theorem through_iff (h : cross p1 p2 p3 ≠ 0) {c : ℝ × ℝ} {r : ℝ} :
    Through p1 p2 p3 c r ↔
      c = circumcentre p1.toReal p2.toReal p3.toReal ∧ r = √(sqDist c p1.toReal) := by
  have harea : area p1.toReal p2.toReal p3.toReal ≠ 0 := by
    rw [area_toReal]
    exact_mod_cast h
  have hequi := equidistant_iff two_ne_zero harea (o := c)
  constructor
  · intro ht
    refine ⟨hequi.mp ⟨ht.p1.trans ht.p2.symm, ht.p1.trans ht.p3.symm⟩, ?_⟩
    rw [ht.p1, Real.sqrt_sq ht.nonneg]
  · rintro ⟨hc, rfl⟩
    obtain ⟨h2, h3⟩ := hequi.mpr hc
    have hsq : √(sqDist c p1.toReal) ^ 2 = sqDist c p1.toReal :=
      Real.sq_sqrt (add_nonneg (mul_self_nonneg _) (mul_self_nonneg _))
    exact ⟨Real.sqrt_nonneg _, hsq.symm, h2.symm.trans hsq.symm, h3.symm.trans hsq.symm⟩

/-- The radius as a distance in the plane. -/
theorem curvature_eq (h : cross p1 p2 p3 ≠ 0) :
    curvature p1 p2 p3 = √(sqDist (coefficients p1 p2 p3).p0.toReal p1.toReal) := by
  have hcol : collinear p1 p2 p3 ≠ 1 := fun hcol => h (cross_of_collinear hcol)
  rw [curvature, if_neg hcol, distance]
  congr 1
  unfold distanceSq sqDist Point.toReal
  push_cast
  rfl

/-- **The radius `Curvature` returns** for three points that are not collinear: the centre is
equidistant from them before its fractions are dropped, and the value returned is less than the
square root of two from the radius of the one circle through them. -/
theorem curvature_radius (h : cross p1 p2 p3 ≠ 0) :
    (sqDist (centre p1 p2 p3) p1.toRat = sqDist (centre p1 p2 p3) p2.toRat ∧
      sqDist (centre p1 p2 p3) p1.toRat = sqDist (centre p1 p2 p3) p3.toRat) ∧
    ∃ c r, Through p1 p2 p3 c r ∧ (∀ c' r', Through p1 p2 p3 c' r' → c' = c ∧ r' = r) ∧
      |curvature p1 p2 p3 - r| < √2 := by
  constructor
  · refine (equidistant_iff two_ne_zero ?_).mpr (centre_eq p1 p2 p3)
    rw [area_toRat]
    exact_mod_cast h
  · refine ⟨_, _, (through_iff h).mpr ⟨rfl, rfl⟩, fun c' r' ht => ?_, ?_⟩
    · obtain ⟨rfl, rfl⟩ := (through_iff h).mp ht
      exact ⟨rfl, rfl⟩
    · rw [curvature_eq h, ← centre_cast]
      have hdrop : ∀ x : ℚ, |((truncate x : ℤ) : ℝ) - (x : ℝ)| < 1 := fun x => by
        exact_mod_cast abs_truncate_sub_lt x
      exact (abs_sqrt_sqDist_sub_le _ _ _).trans_lt (sqrt_sqDist_lt (hdrop _) (hdrop _))

/-- A bend of the lane to the right. -/
theorem curvature_radius_bend :
    cross ⟨400, 720⟩ ⟨500, 180⟩ ⟨700, 0⟩ ≠ 0 ∧
    ∃ c r, Through ⟨400, 720⟩ ⟨500, 180⟩ ⟨700, 0⟩ c r ∧
      (∀ c' r', Through ⟨400, 720⟩ ⟨500, 180⟩ ⟨700, 0⟩ c' r' → c' = c ∧ r' = r) ∧
      |curvature ⟨400, 720⟩ ⟨500, 180⟩ ⟨700, 0⟩ - r| < √2 :=
  ⟨by decide, (curvature_radius (by decide)).2⟩

end Radius

end Vehicle.Recovery.Image
