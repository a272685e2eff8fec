import Vehicle.Recovery.Curvature
import Vehicle.Recovery.Encoder

/-!
# recovery: overflow in the curvature

`Camera::Run` calls `Curvature` with points at the heights 720, 180 and 0. The centre of their
circle is far away when the lane is nearly straight, and `Distance` squares the difference to it in
type `int`. That square fits while the centre is less than 46341 pixels from the first point in both
coordinates, which two polynomial inequalities in the three columns say (`noOverflow_iff`).
-/

namespace Vehicle.Recovery.Image

open Vehicle.Numeric

/-! ### The values of type `int` -/

/-- The values of type `int` in `Collinear`. -/
def collinearInts (p1 p2 p3 : Point) : List ℤ :=
  if p1.x = p2.x ∧ p2.x = p3.x then []
  else [p2.x - p1.x, p2.x - p3.x, p2.y - p1.y, p2.y - p3.y]

/-- The values of type `int` in the coefficients of one equation. -/
def equationInts (p q : Point) : List ℤ :=
  [p.x - q.x, p.y - q.y, p.x * p.x, q.x * q.x, p.x * p.x - q.x * q.x, p.y * p.y, q.y * q.y,
    p.y * p.y - q.y * q.y, p.x * p.x - q.x * q.x + (p.y * p.y - q.y * q.y)]

/-- The values of type `int` in `Distance`. -/
def distanceInts (p q : Point) : List ℤ :=
  [p.x - q.x, (p.x - q.x) * (p.x - q.x), p.y - q.y, (p.y - q.y) * (p.y - q.y)]

/-- **The values of type `int` in a call of `Curvature`**, with those the centre is converted to. -/
def curvatureInts (p1 p2 p3 : Point) : List ℤ :=
  let p0 := (coefficients p1 p2 p3).p0
  collinearInts p1 p2 p3 ++
    if collinear p1 p2 p3 = 1 then []
    else equationInts p1 p2 ++ equationInts p1 p3 ++ [p0.x, p0.y] ++ distanceInts p0 p1

/-- The value an `int` of 32 bits holds. -/
def wrapInt (x : ℤ) : ℤ := x.bmod (2 ^ 32)

/-- `x2 + y2` of `Distance`, with the differences and the squares of type `int`. -/
def distanceSq32 (p q : Point) : ℤ :=
  wrapInt (wrapInt (p.x - q.x) * wrapInt (p.x - q.x)) +
    wrapInt (wrapInt (p.y - q.y) * wrapInt (p.y - q.y))

/-- **A call of `Curvature` does not overflow**, and the squared distance is exact. -/
structure NoOverflow (p1 p2 p3 : Point) : Prop where
  fits : ∀ z ∈ curvatureInts p1 p2 p3, FitsInt z
  exact : cross p1 p2 p3 ≠ 0 →
    distanceSq32 (coefficients p1 p2 p3).p0 p1 = distanceSq (coefficients p1 p2 p3).p0 p1

theorem wrapInt_eq {x : ℤ} (h : FitsInt x) : wrapInt x = x := by
  obtain ⟨h1, h2⟩ := h
  exact Int.bmod_eq_of_le (by omega) (by omega)

theorem distanceSq32_eq {p q : Point} (h : ∀ z ∈ distanceInts p q, FitsInt z) :
    distanceSq32 p q = distanceSq p q := by
  simp only [distanceInts, List.forall_mem_cons] at h
  obtain ⟨hx, hxx, hy, hyy, -⟩ := h
  rw [distanceSq32, wrapInt_eq hx, wrapInt_eq hxx, wrapInt_eq hy, wrapInt_eq hyy, distanceSq]

/-- The squares that fit: `46340 * 46340 < 2 ^ 31 <= 46341 * 46341`. -/
theorem fitsInt_sq_iff {z : ℤ} : FitsInt (z * z) ↔ |z| ≤ 46340 := by
  have habs : z * z = |z| * |z| := (abs_mul_abs_self z).symm
  have hnonneg := abs_nonneg z
  rw [habs]
  unfold FitsInt
  constructor
  · rintro ⟨-, h⟩
    by_contra hlt
    nlinarith
  · intro h
    constructor <;> nlinarith

/-- How far a centre may lie from a column or row, before and after its fraction is dropped. -/
theorem abs_truncate_sub_le_iff {x : ℚ} {a n : ℤ} (ha : 0 ≤ a) (hn : a ≤ n) :
    |truncate x - a| ≤ n ↔ |x - a| < n + 1 := by
  rw [abs_le, abs_lt]
  rcases le_total 0 x with h | h
  · rw [truncate_eq_floor h]
    have hfloor : 0 ≤ ⌊x⌋ := Int.floor_nonneg.mpr h
    have hup : ⌊x⌋ ≤ a + n ↔ x < a + n + 1 := by
      rw [← Int.lt_add_one_iff, Int.floor_lt]
      push_cast
      rfl
    have han : (a : ℚ) ≤ n := by exact_mod_cast hn
    constructor
    · rintro ⟨-, h2⟩
      have := hup.mp (by omega)
      constructor <;> linarith
    · rintro ⟨-, h2⟩
      have := hup.mpr (by linarith)
      constructor <;> omega
  · rw [truncate_of_nonpos h]
    have hceil : ⌈x⌉ ≤ 0 := Int.ceil_le.mpr (by exact_mod_cast h)
    have hlow : a - n ≤ ⌈x⌉ ↔ a - n - 1 < x := by
      rw [← Int.sub_one_lt_iff, Int.lt_ceil]
      push_cast
      rfl
    have ha' : (0 : ℚ) ≤ a := by exact_mod_cast ha
    have han : (a : ℚ) ≤ n := by exact_mod_cast hn
    constructor
    · rintro ⟨h1, -⟩
      have := hlow.mp (by omega)
      constructor <;> linarith
    · rintro ⟨h1, -⟩
      have := hlow.mpr (by linarith)
      constructor <;> omega

/-- A quotient taken from a column or row, before and after its fraction is dropped. -/
theorem abs_truncate_sub_div_iff {a n s d : ℤ} (ha : 0 ≤ a) (hn : a ≤ n) (hd : d ≠ 0) :
    |truncate ((a : ℚ) - s / d) - a| ≤ n ↔ |s| < (n + 1) * |d| := by
  have hpos : (0 : ℚ) < |(d : ℚ)| := abs_pos.mpr (by exact_mod_cast hd)
  rw [abs_truncate_sub_le_iff ha hn, sub_sub_cancel_left, abs_neg, abs_div, div_lt_iff₀ hpos]
  exact_mod_cast Iff.rfl

/-! ### Points of the frame -/

/-- A point of the frame, its lower edge included. -/
structure OnFrame (p : Point) : Prop where
  left : 0 ≤ p.x
  right : p.x < 1280
  top : 0 ≤ p.y
  bottom : p.y ≤ 720

section OnFrame

variable {p q r : Point}

theorem fits_collinearInts (hp : OnFrame p) (hq : OnFrame q) (hr : OnFrame r) :
    ∀ z ∈ collinearInts p q r, FitsInt z := by
  obtain ⟨h1, h2, h3, h4⟩ := hp
  obtain ⟨h5, h6, h7, h8⟩ := hq
  obtain ⟨h9, h10, h11, h12⟩ := hr
  unfold collinearInts
  split
  · simp
  · simp only [List.forall_mem_cons, List.not_mem_nil, IsEmpty.forall_iff, implies_true, and_true]
    unfold FitsInt
    omega

/-- The square of a coordinate. -/
theorem sq_bounds {z : ℤ} (h1 : 0 ≤ z) (h2 : z < 1280) : 0 ≤ z * z ∧ z * z < 1638400 := by
  constructor
  · exact mul_nonneg h1 h1
  · nlinarith

theorem fits_equationInts (hp : OnFrame p) (hq : OnFrame q) :
    ∀ z ∈ equationInts p q, FitsInt z := by
  obtain ⟨h1, h2, h3, h4⟩ := hp
  obtain ⟨h5, h6, h7, h8⟩ := hq
  have hpx := sq_bounds h1 h2
  have hpy := sq_bounds h3 (by omega)
  have hqx := sq_bounds h5 h6
  have hqy := sq_bounds h7 (by omega)
  simp only [equationInts, List.forall_mem_cons, List.not_mem_nil, IsEmpty.forall_iff,
    implies_true, and_true]
  unfold FitsInt
  omega

/-- `Distance` fits from a point up to 46340 pixels away in both coordinates. -/
theorem fits_distanceInts_iff (p q : Point)
    (hq : |p.x - q.x| ≤ 20000000 ∧ |p.y - q.y| ≤ 20000000) :
    (∀ z ∈ distanceInts p q, FitsInt z) ↔ |p.x - q.x| ≤ 46340 ∧ |p.y - q.y| ≤ 46340 := by
  obtain ⟨hx, hy⟩ := hq
  have hfit : ∀ z : ℤ, |z| ≤ 20000000 → FitsInt z := by
    intro z hz
    rw [abs_le] at hz
    unfold FitsInt
    omega
  simp only [distanceInts, List.forall_mem_cons, List.not_mem_nil, IsEmpty.forall_iff,
    implies_true, and_true, fitsInt_sq_iff, hfit _ hx, hfit _ hy, true_and]

end OnFrame

/-! ### The circle through the three heights -/

section Lane

/-- How far the lane is from straight: zero when the three points lie on a line. -/
def bend (xa xb xc : ℤ) : ℤ := 3 * (xa - xc) - 4 * (xa - xb)

/-- The distance of the centre from the first point sideways, times `2 * bend`. -/
def sideways (xa xb xc : ℤ) : ℤ :=
  3 * ((xa - xc) * (xa - xc)) - 4 * ((xa - xb) * (xa - xb)) + 388800

/-- The distance of the centre from the first point along the lane, times `360 * bend`. -/
def along (xa xb xc : ℤ) : ℤ :=
  (xa - xb) * (xa - xc) * (xc - xb) - 518400 * (xa - xb) + 291600 * (xa - xc)

/-- **The centre is near the first point**: less than 46341 pixels away in both coordinates, unless
the lane is straight. -/
def NearCentre (xa xb xc : ℤ) : Prop :=
  bend xa xb xc = 0 ∨
    (|sideways xa xb xc| < 92682 * |bend xa xb xc| ∧ |along xa xb xc| < 16682760 * |bend xa xb xc|)

variable {xa xb xc : ℤ}

theorem cross_lane : cross ⟨xa, 720⟩ ⟨xb, 180⟩ ⟨xc, 0⟩ = -(180 * bend xa xb xc) := by
  unfold cross area Point.toProd bend
  ring

/-- The points are at different heights, so the test for collinear points is exact. -/
theorem collinear_lane_iff : collinear ⟨xa, 720⟩ ⟨xb, 180⟩ ⟨xc, 0⟩ = 1 ↔ bend xa xb xc = 0 := by
  have hapart : Apart ⟨xa, 720⟩ ⟨xb, 180⟩ ⟨xc, 0⟩ := by
    refine Or.inl ⟨?_, ?_, ?_⟩ <;> simp
  rw [hapart.collinear_iff, cross_lane]
  omega

/-- The centre, from the first point. -/
theorem centre_lane (h : bend xa xb xc ≠ 0) :
    centre ⟨xa, 720⟩ ⟨xb, 180⟩ ⟨xc, 0⟩ =
      ((xa : ℚ) - sideways xa xb xc / (2 * bend xa xb xc),
        (720 : ℚ) - along xa xb xc / (360 * bend xa xb xc)) := by
  have hbend : (bend xa xb xc : ℚ) ≠ 0 := by exact_mod_cast h
  have hdet : (coefficients ⟨xa, 720⟩ ⟨xb, 180⟩ ⟨xc, 0⟩).det = 180 * bend xa xb xc := by
    rw [det_eq, cross_lane]
    push_cast
    ring
  unfold centre Coefficients.centre
  rw [hdet]
  apply Prod.ext
  · field_simp
    unfold coefficients sideways bend
    push_cast
    ring
  · field_simp
    unfold coefficients along bend
    push_cast
    ring

theorem abs_p0_x_sub_le_iff {n : ℤ} (h : bend xa xb xc ≠ 0) (ha : 0 ≤ xa) (hn : xa ≤ n) :
    |(coefficients ⟨xa, 720⟩ ⟨xb, 180⟩ ⟨xc, 0⟩).p0.x - xa| ≤ n ↔
      |sideways xa xb xc| < (n + 1) * 2 * |bend xa xb xc| := by
  have htwo : (n + 1) * 2 * |bend xa xb xc| = (n + 1) * |2 * bend xa xb xc| := by
    rw [abs_mul, mul_assoc]
    rfl
  rw [htwo, ← abs_truncate_sub_div_iff ha hn (by omega)]
  have hcentre := congrArg Prod.fst (centre_lane h)
  rw [Coefficients.p0, ← centre, hcentre]
  push_cast
  rfl

theorem abs_p0_y_sub_le_iff {n : ℤ} (h : bend xa xb xc ≠ 0) (hn : 720 ≤ n) :
    |(coefficients ⟨xa, 720⟩ ⟨xb, 180⟩ ⟨xc, 0⟩).p0.y - 720| ≤ n ↔
      |along xa xb xc| < (n + 1) * 360 * |bend xa xb xc| := by
  have hscale : (n + 1) * 360 * |bend xa xb xc| = (n + 1) * |360 * bend xa xb xc| := by
    rw [abs_mul, mul_assoc]
    rfl
  rw [hscale, ← abs_truncate_sub_div_iff (by omega) hn (by omega)]
  have hcentre := congrArg Prod.snd (centre_lane h)
  rw [Coefficients.p0, ← centre, hcentre]
  push_cast
  rfl

/-- The columns of the three points lie on the frame. -/
structure Columns (xa xb xc : ℤ) : Prop where
  first : 0 ≤ xa ∧ xa < 1280
  second : 0 ≤ xb ∧ xb < 1280
  third : 0 ≤ xc ∧ xc < 1280

namespace Columns

variable (hcol : Columns xa xb xc)
include hcol

theorem abs_sub_le : |xa - xb| ≤ 1280 ∧ |xa - xc| ≤ 1280 ∧ |xc - xb| ≤ 1280 := by
  obtain ⟨⟨h1, h2⟩, ⟨h3, h4⟩, ⟨h5, h6⟩⟩ := hcol
  refine ⟨?_, ?_, ?_⟩ <;> (rw [abs_le]; omega)

theorem abs_sideways_le : |sideways xa xb xc| ≤ 11857600 := by
  obtain ⟨hu, hv, -⟩ := hcol.abs_sub_le
  have hu2 : (xa - xb) * (xa - xb) ≤ 1280 * 1280 := by
    rw [← abs_mul_abs_self]
    exact mul_self_le_mul_self (abs_nonneg _) hu
  have hv2 : (xa - xc) * (xa - xc) ≤ 1280 * 1280 := by
    rw [← abs_mul_abs_self]
    exact mul_self_le_mul_self (abs_nonneg _) hv
  have hu0 := mul_self_nonneg (xa - xb)
  have hv0 := mul_self_nonneg (xa - xc)
  unfold sideways
  rw [abs_le]
  omega

theorem abs_along_le : |along xa xb xc| ≤ 3133952000 := by
  obtain ⟨hu, hv, hw⟩ := hcol.abs_sub_le
  have hprod : |(xa - xb) * (xa - xc) * (xc - xb)| ≤ 1280 * 1280 * 1280 := by
    rw [abs_mul, abs_mul]
    exact mul_le_mul (mul_le_mul hu hv (abs_nonneg _) (by norm_num)) hw (abs_nonneg _) (by norm_num)
  unfold along
  rw [abs_le] at hprod hu hv ⊢
  omega

/-- The centre is never far enough for its own coordinates to overflow. -/
theorem abs_p0_le (h : bend xa xb xc ≠ 0) :
    |(coefficients ⟨xa, 720⟩ ⟨xb, 180⟩ ⟨xc, 0⟩).p0.x - xa| ≤ 20000000 ∧
      |(coefficients ⟨xa, 720⟩ ⟨xb, 180⟩ ⟨xc, 0⟩).p0.y - 720| ≤ 20000000 := by
  have hbend : 1 ≤ |bend xa xb xc| := Int.one_le_abs h
  have hside := hcol.abs_sideways_le
  have halong := hcol.abs_along_le
  obtain ⟨ha, ha'⟩ := hcol.first
  rw [abs_p0_x_sub_le_iff h ha (by omega), abs_p0_y_sub_le_iff h (by omega)]
  constructor <;> omega

theorem onFrame : OnFrame ⟨xa, 720⟩ ∧ OnFrame ⟨xb, 180⟩ ∧ OnFrame ⟨xc, 0⟩ := by
  obtain ⟨⟨h1, h2⟩, ⟨h3, h4⟩, ⟨h5, h6⟩⟩ := hcol
  exact ⟨⟨h1, h2, by norm_num, le_rfl⟩, ⟨h3, h4, by norm_num, by norm_num⟩,
    ⟨h5, h6, le_rfl, by norm_num⟩⟩

/-- Outside `Distance` nothing overflows. -/
theorem fits_iff_distance (h : bend xa xb xc ≠ 0) :
    (∀ z ∈ curvatureInts ⟨xa, 720⟩ ⟨xb, 180⟩ ⟨xc, 0⟩, FitsInt z) ↔
      ∀ z ∈ distanceInts (coefficients ⟨xa, 720⟩ ⟨xb, 180⟩ ⟨xc, 0⟩).p0 ⟨xa, 720⟩, FitsInt z := by
  obtain ⟨hp1, hp2, hp3⟩ := hcol.onFrame
  obtain ⟨hx, hy⟩ := hcol.abs_p0_le h
  obtain ⟨ha, ha'⟩ := hcol.first
  have hp0 : ∀ z ∈ [(coefficients ⟨xa, 720⟩ ⟨xb, 180⟩ ⟨xc, 0⟩).p0.x,
      (coefficients ⟨xa, 720⟩ ⟨xb, 180⟩ ⟨xc, 0⟩).p0.y], FitsInt z := by
    rw [abs_le] at hx hy
    simp only [List.forall_mem_cons, List.not_mem_nil, IsEmpty.forall_iff, implies_true, and_true]
    unfold FitsInt
    omega
  have hne : collinear ⟨xa, 720⟩ ⟨xb, 180⟩ ⟨xc, 0⟩ ≠ 1 := fun hc => h (collinear_lane_iff.mp hc)
  unfold curvatureInts
  dsimp only
  rw [if_neg hne]
  simp only [List.forall_mem_append]
  constructor
  · intro hfits
    exact hfits.2.2
  · intro hdist
    exact ⟨fits_collinearInts hp1 hp2 hp3,
      ⟨⟨fits_equationInts hp1 hp2, fits_equationInts hp1 hp3⟩, hp0⟩, hdist⟩

/-- `Distance` fits when the centre is near. -/
theorem fits_distance_iff (h : bend xa xb xc ≠ 0) :
    (∀ z ∈ distanceInts (coefficients ⟨xa, 720⟩ ⟨xb, 180⟩ ⟨xc, 0⟩).p0 ⟨xa, 720⟩, FitsInt z) ↔
      NearCentre xa xb xc := by
  obtain ⟨ha, ha'⟩ := hcol.first
  have hx := abs_p0_x_sub_le_iff (n := 46340) h ha (by omega)
  have hy := abs_p0_y_sub_le_iff (n := 46340) h (by omega)
  norm_num only at hx hy
  have hnear := hcol.abs_p0_le h
  generalize (coefficients ⟨xa, 720⟩ ⟨xb, 180⟩ ⟨xc, 0⟩).p0 = p0 at hx hy hnear ⊢
  rw [fits_distanceInts_iff p0 ⟨xa, 720⟩ hnear, hx, hy, NearCentre, or_iff_right h]

end Columns

/-- **When a call on a lane does not overflow**: when the lane is straight, or the centre of its
circle is near the first point. -/
theorem noOverflow_iff (hcol : Columns xa xb xc) :
    NoOverflow ⟨xa, 720⟩ ⟨xb, 180⟩ ⟨xc, 0⟩ ↔ NearCentre xa xb xc := by
  by_cases h : bend xa xb xc = 0
  · -- a straight lane never reaches `Distance`
    obtain ⟨hp1, hp2, hp3⟩ := hcol.onFrame
    refine iff_of_true ⟨?_, fun hcross => ?_⟩ (Or.inl h)
    · unfold curvatureInts
      dsimp only
      rw [if_pos (collinear_lane_iff.mpr h), List.append_nil]
      exact fits_collinearInts hp1 hp2 hp3
    · rw [cross_lane, h] at hcross
      exact absurd rfl hcross
  · constructor
    · intro hno
      apply (hcol.fits_distance_iff h).mp
      exact (hcol.fits_iff_distance h).mp hno.fits
    · intro hnear
      have hdist := (hcol.fits_distance_iff h).mpr hnear
      exact ⟨(hcol.fits_iff_distance h).mpr hdist, fun _ => distanceSq32_eq hdist⟩

/-- A sharp bend. -/
theorem noOverflow_bend :
    Columns 400 500 700 ∧ NoOverflow ⟨400, 720⟩ ⟨500, 180⟩ ⟨700, 0⟩ := by
  have hcol : Columns 400 500 700 := ⟨by decide, by decide, by decide⟩
  refine ⟨hcol, (noOverflow_iff hcol).mpr (Or.inr ?_)⟩
  unfold sideways along bend
  norm_num

/-- A lane one column from straight: the centre lies 194399 columns away, and the square of that is
not of type `int`. -/
theorem gentle_bend_overflows :
    ¬ ∀ xa xb xc : ℤ, Columns xa xb xc → NoOverflow ⟨xa, 720⟩ ⟨xb, 180⟩ ⟨xc, 0⟩ := by
  intro h
  have hcol : Columns 641 640 640 := ⟨by decide, by decide, by decide⟩
  have hdist := (hcol.fits_iff_distance (by decide)).mp (h 641 640 640 hcol).fits
  rcases (hcol.fits_distance_iff (by decide)).mp hdist with hbend | ⟨hside, -⟩
  · revert hbend
    decide
  · revert hside
    decide

end Lane

end Vehicle.Recovery.Image
