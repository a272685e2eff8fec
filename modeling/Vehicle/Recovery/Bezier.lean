import Mathlib.Data.Fintype.EquivFin
import Mathlib.Data.Fintype.Lattice
import Vehicle.Numeric.Bezier
import Vehicle.Recovery.Curvature
import Vehicle.Recovery.Lane

/-!
# recovery: the curves of the lane

`PointAdd`, `PointTimes`, `Bernstein` and `DrawBezier` of `image.cpp`, in exact arithmetic. A
coordinate of `Bernstein` is the cubic with the controls taken from the last to the first
(`coord_bernstein`), so the curve stays between its controls and does not fold back where they do
not, and neither do its points, whose fractions are dropped. The control points of `Camera::Run`
stand one above the other (`falling_run`).
-/

namespace Vehicle.Recovery.Image

open Vehicle.Numeric

/-! ### `image.cpp` -/

/-- `cv::Point3d`. -/
structure Point3d where
  x : ℚ
  y : ℚ
  z : ℚ
  deriving DecidableEq, Repr

/-- `PointAdd`. -/
def pointAdd (p q : Point3d) : Point3d := ⟨p.x + q.x, p.y + q.y, p.z + q.z⟩

/-- `PointTimes`. -/
def pointTimes (c : ℚ) (p : Point3d) : Point3d := ⟨p.x * c, p.y * c, p.z * c⟩

/-- **`Bernstein`**, which reads the first four points of the array. -/
def bernstein (u : ℚ) (p : Fin 4 → Point3d) : Point3d :=
  let a := pointTimes (u ^ 3) (p 0)
  let b := pointTimes (3 * u ^ 2 * (1 - u)) (p 1)
  let c := pointTimes (3 * u * (1 - u) ^ 2) (p 2)
  let d := pointTimes ((1 - u) ^ 3) (p 3)
  pointAdd (pointAdd a b) (pointAdd c d)

/-- `NowPt` in iteration `i` of `DrawBezier`. -/
def nowPt (divs : ℕ) (p : Fin 4 → Point3d) (i : ℕ) : Point :=
  let newPt := bernstein (i / divs) p
  ⟨truncate newPt.x, truncate newPt.y⟩

/-- Iteration `i` of `DrawBezier`: the lines drawn so far, and `PrePt`. -/
def drawStep (divs : ℕ) (p : Fin 4 → Point3d) (r : List (Point × Point) × Point) (i : ℕ) :
    List (Point × Point) × Point :=
  (if i > 0 then r.1 ++ [(nowPt divs p i, r.2)] else r.1, nowPt divs p i)

/-- **`DrawBezier`**: the lines it draws. -/
def drawBezier (divs : ℕ) (p : Fin 4 → Point3d) : List (Point × Point) :=
  ((List.range (divs + 1)).foldl (drawStep divs p) ([], ⟨0, 0⟩)).1

/-- The lines drawn connect the points of the curve one after the other. -/
theorem drawBezier_eq (divs : ℕ) (p : Fin 4 → Point3d) :
    drawBezier divs p = (List.range divs).map fun i => (nowPt divs p (i + 1), nowPt divs p i) := by
  have key : ∀ n, (List.range (n + 1)).foldl (drawStep divs p) ([], ⟨0, 0⟩) =
      ((List.range n).map fun i => (nowPt divs p (i + 1), nowPt divs p i), nowPt divs p n) := by
    intro n
    induction n with
    | zero => rfl
    | succ n ih =>
      rw [List.range_succ, List.foldl_append, ih]
      simp [drawStep, List.range_succ]
  rw [drawBezier, key]

/-! ### The curve -/

/-- The three coordinates. -/
def coords : List (Point3d → ℚ) := [Point3d.x, Point3d.y, Point3d.z]

/-- Each coordinate lies between the smallest and the largest of the control points. -/
def InHull (p : Fin 4 → Point3d) (q : Point3d) : Prop :=
  ∀ f ∈ coords, (∃ i, f (p i) ≤ f q) ∧ ∃ i, f q ≤ f (p i)

/-- No control point lies below the one behind it. -/
def Falling (p : Fin 4 → Point3d) : Prop :=
  (p 1).y ≤ (p 0).y ∧ (p 2).y ≤ (p 1).y ∧ (p 3).y ≤ (p 2).y

/-- The controls from the last to the first. -/
def reversed (p : Fin 4 → Point3d) (i : ℕ) : Point3d := p (Fin.ofNat 4 i).rev

section Curve

variable {p : Fin 4 → Point3d} {u v : ℚ} {f : Point3d → ℚ}

/-- **A coordinate of the curve is a cubic.** -/
theorem coord_bernstein (hf : f ∈ coords) :
    f (bernstein u p) = casteljau 3 (fun i => f (reversed p i)) u := by
  have h0 : reversed p 0 = p 3 := rfl
  have h1 : reversed p 1 = p 2 := rfl
  have h2 : reversed p 2 = p 1 := rfl
  have h3 : reversed p 3 = p 0 := rfl
  rw [casteljau_three, h0, h1, h2, h3]
  simp only [coords, List.mem_cons, List.not_mem_nil, or_false] at hf
  rcases hf with rfl | rfl | rfl <;>
    · simp only [bernstein, pointAdd, pointTimes, smul_eq_mul]
      ring

theorem ext_coords {q r : Point3d} (h : ∀ f ∈ coords, f q = f r) : q = r := by
  have hx := h Point3d.x (by simp [coords])
  have hy := h Point3d.y (by simp [coords])
  have hz := h Point3d.z (by simp [coords])
  obtain ⟨x, y, z⟩ := q
  obtain ⟨x', y', z'⟩ := r
  simp only at hx hy hz
  rw [hx, hy, hz]

theorem bernstein_zero (p : Fin 4 → Point3d) : bernstein 0 p = p 3 :=
  ext_coords fun _ hf => (coord_bernstein hf).trans (casteljau_zero 3 _)

theorem bernstein_one (p : Fin 4 → Point3d) : bernstein 1 p = p 0 :=
  ext_coords fun _ hf => (coord_bernstein hf).trans (casteljau_one 3 _)

/-- **The curve stays between its controls.** -/
theorem inHull_bernstein (h0 : 0 ≤ u) (h1 : u ≤ 1) : InHull p (bernstein u p) := by
  intro f hf
  obtain ⟨lo, hlo⟩ := Finite.exists_min fun i => f (p i)
  obtain ⟨hi, hhi⟩ := Finite.exists_max fun i => f (p i)
  rw [coord_bernstein hf]
  exact ⟨⟨lo, le_casteljau h0 h1 fun i _ => hlo _⟩, hi, casteljau_le h0 h1 fun i _ => hhi _⟩

/-- **The curve does not fold back.** -/
theorem bernstein_mono (hp : Falling p) (h0 : 0 ≤ u) (huv : u ≤ v) (h1 : v ≤ 1) :
    (bernstein u p).y ≤ (bernstein v p).y := by
  have hy : Point3d.y ∈ coords := by simp [coords]
  rw [coord_bernstein hy, coord_bernstein hy]
  refine casteljau_le_casteljau h0 huv h1 fun i hi => ?_
  obtain ⟨h10, h21, h32⟩ := hp
  obtain rfl | rfl | rfl : i = 0 ∨ i = 1 ∨ i = 2 := by omega
  · exact h32
  · exact h21
  · exact h10

end Curve

/-! ### The points that are drawn -/

theorem truncate_intCast (n : ℤ) : truncate n = n := by simp [truncate]

theorem truncate_mono {x y : ℚ} (h : x ≤ y) : truncate x ≤ truncate y := by
  rcases le_total 0 x with hx | hx
  · rw [truncate_eq_floor hx, truncate_eq_floor (hx.trans h)]
    exact Int.floor_mono h
  · rcases le_total 0 y with hy | hy
    · rw [truncate_of_nonpos hx, truncate_eq_floor hy]
      have hceil : ⌈x⌉ ≤ 0 := Int.ceil_le.mpr (by exact_mod_cast hx)
      exact hceil.trans (Int.floor_nonneg.mpr hy)
    · rw [truncate_of_nonpos hx, truncate_of_nonpos hy]
      exact Int.ceil_mono h

theorem le_truncate {n : ℤ} {x : ℚ} (h : n ≤ x) : n ≤ truncate x := by
  rw [← truncate_intCast n]
  exact truncate_mono h

theorem truncate_le {n : ℤ} {x : ℚ} (h : x ≤ n) : truncate x ≤ n := by
  rw [← truncate_intCast n]
  exact truncate_mono h

/-- A control point of `Camera`, as a `Point3d`. -/
def ofCamera (q : Camera.Point3d) : Point3d := ⟨q.x, q.y, q.z⟩

/-- A point between the smallest and the largest coordinates of control points with integer
coordinates. -/
structure InBox (q : Fin 4 → Camera.Point3d) (pt : Point) : Prop where
  left : ∃ i, (q i).x ≤ pt.x
  right : ∃ i, pt.x ≤ (q i).x
  top : ∃ i, (q i).y ≤ pt.y
  bottom : ∃ i, pt.y ≤ (q i).y

section Points

variable {divs i j : ℕ}

/-- The parameters of the loop. -/
theorem param_mem (hd : 0 < divs) (hi : i ≤ divs) :
    (0 : ℚ) ≤ i / divs ∧ (i : ℚ) / divs ≤ 1 := by
  have hpos : (0 : ℚ) < divs := by exact_mod_cast hd
  have hle : (i : ℚ) ≤ divs := by exact_mod_cast hi
  exact ⟨by positivity, (div_le_one hpos).mpr hle⟩

/-- **The points drawn do not fold back.** -/
theorem nowPt_mono {p : Fin 4 → Point3d} (hp : Falling p) (hd : 0 < divs) (hij : i ≤ j)
    (hj : j ≤ divs) : (nowPt divs p i).y ≤ (nowPt divs p j).y := by
  have hpos : (0 : ℚ) < divs := by exact_mod_cast hd
  have hle : (i : ℚ) / divs ≤ j / divs := by
    rw [div_le_div_iff_of_pos_right hpos]
    exact_mod_cast hij
  exact truncate_mono (bernstein_mono hp (param_mem hd (hij.trans hj)).1 hle (param_mem hd hj).2)

/-- **The points drawn stay within the box of integer control points.** -/
theorem inBox_nowPt {q : Fin 4 → Camera.Point3d} (hd : 0 < divs) (hi : i ≤ divs) :
    InBox q (nowPt divs (fun k => ofCamera (q k)) i) := by
  obtain ⟨h0, h1⟩ := param_mem hd hi
  have hhull := inHull_bernstein (p := fun k => ofCamera (q k)) h0 h1
  obtain ⟨⟨l, hl⟩, r, hr⟩ := hhull Point3d.x (by simp [coords])
  obtain ⟨⟨t, ht⟩, b, hb⟩ := hhull Point3d.y (by simp [coords])
  exact ⟨⟨l, le_truncate hl⟩, ⟨r, truncate_le hr⟩, ⟨t, le_truncate ht⟩,
    b, truncate_le hb⟩

end Points

/-! ### The control points of `Camera::Run` -/

section Camera

open Camera

/-- `ControlPts` of a side, as far as `Bernstein` reads them. -/
def controls (s : Side) (k : Fin 4) : Camera.Point3d := s.controlPts (k.castLE (by decide))

/-- What a window does to the heights of the control points. -/
theorem controls_window (g : Picture) (s : Side) (i : ℕ) (k : Fin 4) :
    (controls (s.window g i) k).y =
      if i = 4 ∧ k = 1 then 360 else if i = 7 ∧ k = 2 then 180
      else if i = 10 ∧ k = 3 then 0 else (controls s k).y := by
  have hpts : ((s.scanWindow g i).recentre).controlPts = s.controlPts := scanWindow_recentre.2
  unfold controls Side.window Side.record
  generalize (s.scanWindow g i).recentre = r at hpts
  by_cases h0 : i = 0
  · simp [h0, hpts]
  by_cases h4 : i = 4
  · fin_cases k <;> simp [h4, Side.control, hpts]
  by_cases h7 : i = 7
  · fin_cases k <;> simp [h7, Side.control, hpts]
  by_cases h10 : i = 10
  · fin_cases k <;> simp [h10, Side.control, hpts]
  simp [h0, h4, h7, h10, hpts]

/-- The heights of the control points before window `i` of a frame. -/
theorem controls_windows (m : Members) (f : Frame) (h : Hand) (k : Fin 4) (i : ℕ) :
    (controls (((m.locate f).windows f.thresh i).side h) k).y =
      if 4 < i ∧ k = 1 then 360 else if 7 < i ∧ k = 2 then 180
      else if 10 < i ∧ k = 3 then 0 else (controls ((m.locate f).side h) k).y := by
  induction i with
  | zero => simp [Members.windows]
  | succ i ih =>
    rw [windows_succ, window_side, controls_window, ih]
    split_ifs <;> first | rfl | omega

/-- **The control points stand one above the other.** -/
theorem controls_run (m : Members) (f : Frame) (h : Hand) :
    (fun k => (controls ((m.run f).side h) k).y) = ![720, 360, 180, 0] := by
  have hbase : (controls ((m.locate f).side h) 0).y = 720 := by
    unfold Members.locate
    split <;> cases h <;> simp [controls, Members.side, Side.place]
  funext k
  rw [Members.run, controls_windows]
  fin_cases k
  · simpa using hbase
  · rfl
  · rfl
  · rfl

theorem falling_run (m : Members) (f : Frame) (h : Hand) :
    Falling fun k => ofCamera (controls ((m.run f).side h) k) := by
  have h0 : (controls ((m.run f).side h) 0).y = 720 := congrFun (controls_run m f h) 0
  have h1 : (controls ((m.run f).side h) 1).y = 360 := congrFun (controls_run m f h) 1
  have h2 : (controls ((m.run f).side h) 2).y = 180 := congrFun (controls_run m f h) 2
  have h3 : (controls ((m.run f).side h) 3).y = 0 := congrFun (controls_run m f h) 3
  simp only [Falling, ofCamera, h0, h1, h2, h3]
  norm_num

end Camera

/-! ### The whole -/

/-- **The curves of the lane** stay between their control points and do not fold back: neither the
curves, nor the points that are drawn; and `Camera::Run` draws them from control points that stand
one above the other. -/
theorem bezier_curve :
    (∀ (p : Fin 4 → Point3d) (u : ℚ), 0 ≤ u → u ≤ 1 → InHull p (bernstein u p)) ∧
    (∀ p : Fin 4 → Point3d, bernstein 0 p = p 3 ∧ bernstein 1 p = p 0) ∧
    (∀ p : Fin 4 → Point3d, Falling p →
      (∀ u v : ℚ, 0 ≤ u → u ≤ v → v ≤ 1 →
        (bernstein u p).y ≤ (bernstein v p).y) ∧
      ∀ divs : ℕ, 0 < divs →
        ∀ i j, i ≤ j → j ≤ divs → (nowPt divs p i).y ≤ (nowPt divs p j).y) ∧
    (∀ (q : Fin 4 → Camera.Point3d) (divs : ℕ), 0 < divs →
      ∀ i ≤ divs, InBox q (nowPt divs (fun k => ofCamera (q k)) i)) ∧
    (∀ (m : Camera.Members) (f : Camera.Frame) (h : Camera.Hand),
      Falling fun k => ofCamera (controls ((m.run f).side h) k)) ∧
    ∀ (divs : ℕ) (p : Fin 4 → Point3d),
      drawBezier divs p =
        (List.range divs).map fun i => (nowPt divs p (i + 1), nowPt divs p i) := by
  refine ⟨fun p u h0 h1 => inHull_bernstein h0 h1,
    fun p => ⟨bernstein_zero p, bernstein_one p⟩, fun p hp => ⟨?_, ?_⟩,
    fun q divs hd i hi => inBox_nowPt hd hi, falling_run, drawBezier_eq⟩
  · exact fun u v h0 huv h1 => bernstein_mono hp h0 huv h1
  · exact fun divs hd i j hij hj => nowPt_mono hp hd hij hj

/-- A lane that bends to the right. -/
def bendRight : Fin 4 → Camera.Point3d :=
  ![⟨300, 720, 0⟩, ⟨310, 360, 0⟩, ⟨340, 180, 0⟩, ⟨400, 0, 0⟩]

/-- It is drawn in four lines. -/
theorem bezier_curve_bend :
    InBox bendRight (nowPt 4 (fun k => ofCamera (bendRight k)) 1) ∧
    (nowPt 4 (fun k => ofCamera (bendRight k)) 1).y ≤
      (nowPt 4 (fun k => ofCamera (bendRight k)) 3).y := by
  obtain ⟨-, -, hmono, hbox, -⟩ := bezier_curve
  have hle : ∀ i j, (bendRight i).y ≤ (bendRight j).y →
      (ofCamera (bendRight i)).y ≤ (ofCamera (bendRight j)).y :=
    fun _ _ h => Int.cast_le.mpr h
  have hfalling : Falling fun k => ofCamera (bendRight k) :=
    ⟨hle 1 0 (by decide), hle 2 1 (by decide), hle 3 2 (by decide)⟩
  exact ⟨hbox bendRight 4 (by decide) 1 (by decide),
    (hmono _ hfalling).2 4 (by decide) 1 3 (by decide) (by decide)⟩

end Vehicle.Recovery.Image
