import Vehicle.Numeric.Homography
import Vehicle.Numeric.Index

/-!
# recovery: the bird's-eye view

`Perspective` and `inverse_Perspective` of `image.cpp`. Each of them has its own copy of the two
quadrilaterals and asks OpenCV for the transform from one to the other. The quadrilaterals agree and
their corners are in general position, so where OpenCV's transforms are exact they undo each other
at every point (`perspective_inverse`): what is drawn in the bird's-eye view returns to the place in
the camera's picture it was seen at.
-/

namespace Vehicle.Recovery.Image

open Vehicle.Numeric Vehicle.Numeric.Homography

/-! ### `image.cpp` -/

/-- `cv::Point2f`, its two coordinates. -/
abbrev Point2f := Fin 2 → ℚ

/-- The transforms of OpenCV. -/
abbrev Transform := Matrix (Fin 3) (Fin 3) ℚ

/-- `INTER_LINEAR`; without `WARP_INVERSE_MAP`, a pixel is moved by the transform. -/
def interLinear : ℤ := 1

/-- What `image.cpp` calls of OpenCV. -/
structure OpenCV (Mat : Type*) where
  getPerspectiveTransform : (Fin 4 → Point2f) → (Fin 4 → Point2f) → Transform
  warpPerspective : Mat → Transform → ℤ × ℤ → ℤ → Mat

namespace Perspective

/-- `points` of `Perspective`. -/
def points : Fin 4 → Point2f := ![![577, 460], ![700, 460], ![1112, 720], ![232, 720]]

/-- `points_after` of `Perspective`. -/
def pointsAfter : Fin 4 → Point2f := ![![300, 0], ![950, 0], ![950, 720], ![300, 720]]

/-- `transform` of `Perspective`. -/
def transform {Mat : Type*} (cv : OpenCV Mat) : Transform :=
  cv.getPerspectiveTransform points pointsAfter

end Perspective

/-- **`Perspective`**: what it stores to `dst`. -/
def perspective {Mat : Type*} (cv : OpenCV Mat) (src : Mat) (width height : ℤ) : Mat :=
  cv.warpPerspective src (Perspective.transform cv) (width, height) interLinear

namespace InversePerspective

/-- `points` of `inverse_Perspective`. -/
def points : Fin 4 → Point2f := ![![577, 460], ![700, 460], ![1112, 720], ![232, 720]]

/-- `points_after` of `inverse_Perspective`. -/
def pointsAfter : Fin 4 → Point2f := ![![300, 0], ![950, 0], ![950, 720], ![300, 720]]

/-- `transform` of `inverse_Perspective`. -/
def transform {Mat : Type*} (cv : OpenCV Mat) : Transform :=
  cv.getPerspectiveTransform pointsAfter points

end InversePerspective

/-- **`inverse_Perspective`**: what it stores to `dst`. -/
def inversePerspective {Mat : Type*} (cv : OpenCV Mat) (src : Mat) (width height : ℤ) : Mat :=
  cv.warpPerspective src (InversePerspective.transform cv) (width, height) interLinear

/-! ### The round trip -/

/-- The matrix, with the lower right entry 1, of a homography that sends the points `src` to the
points `dst`. -/
structure IsTransform (src dst : Fin 4 → Point2f) (m : Transform) : Prop where
  entry : m 2 2 = 1
  sends : ∀ i, Sends m (src i) (dst i)

/-- `getPerspectiveTransform` is exact in the two calls. -/
structure OpenCV.Exact {Mat : Type*} (cv : OpenCV Mat) : Prop where
  transform : IsTransform Perspective.points Perspective.pointsAfter (Perspective.transform cv)
  inverse : IsTransform InversePerspective.pointsAfter InversePerspective.points
    (InversePerspective.transform cv)

/-- The second copy of the quadrilaterals is the same. -/
theorem points_eq : InversePerspective.points = Perspective.points ∧
    InversePerspective.pointsAfter = Perspective.pointsAfter := ⟨rfl, rfl⟩

/-- The corners in the camera's picture are in general position. -/
theorem general_points : General Perspective.points := by
  refine general_of_det ?_ ![880 / 123, -880 / 123, 1] (by decide +kernel) (funext ?_)
  · rw [Matrix.det_fin_three]
    decide +kernel
  · decide +kernel

/-- So are those in the bird's-eye view. -/
theorem general_pointsAfter : General Perspective.pointsAfter := by
  refine general_of_det ?_ ![1, -1, 1] (by decide +kernel) (funext ?_)
  · rw [Matrix.det_fin_three]
    decide +kernel
  · decide +kernel

/-- **The transforms of the two functions undo each other**, where OpenCV's are exact, at every
point at which the first of them is defined. -/
theorem perspective_inverse {Mat : Type*} (cv : OpenCV Mat) (h : cv.Exact) :
    (∀ p, denominator (Perspective.transform cv) p ≠ 0 →
      denominator (InversePerspective.transform cv) (map (Perspective.transform cv) p) ≠ 0 ∧
        map (InversePerspective.transform cv) (map (Perspective.transform cv) p) = p) ∧
    ∀ p, denominator (InversePerspective.transform cv) p ≠ 0 →
      denominator (Perspective.transform cv) (map (InversePerspective.transform cv) p) ≠ 0 ∧
        map (Perspective.transform cv) (map (InversePerspective.transform cv) p) = p := by
  have hinv := h.inverse.sends
  rw [points_eq.1, points_eq.2] at hinv
  exact ⟨fun p hp => map_map general_points h.transform.sends hinv hp,
    fun p hp => map_map general_pointsAfter hinv h.transform.sends hp⟩

/-! ### The two transforms -/

/-- The transform to the bird's-eye view. -/
def birdsEye : Transform :=
  !![-4225 / 7906, -765 / 536, 3694250 / 3953;
     0, -7920 / 3953, 3643200 / 3953;
     0, -757 / 316240, 1]

/-- The transform back. -/
def camera : Transform :=
  !![123 / 650, -59903 / 79200, 6763 / 13;
     0, -3953 / 7920, 460;
     0, -757 / 633600, 1]

theorem isTransform_birdsEye :
    IsTransform Perspective.points Perspective.pointsAfter birdsEye := ⟨rfl, by decide +kernel⟩

theorem isTransform_camera :
    IsTransform InversePerspective.pointsAfter InversePerspective.points camera :=
  ⟨rfl, by decide +kernel⟩

/-- An OpenCV that knows the two transforms; a picture is the place of its one pixel. -/
def twoTransforms : OpenCV Point2f where
  getPerspectiveTransform src _ := if src = Perspective.points then birdsEye else camera
  warpPerspective p m _ _ := map m p

theorem exact_twoTransforms : twoTransforms.Exact := by
  have hne : InversePerspective.pointsAfter ≠ Perspective.points := by decide +kernel
  have htransform : Perspective.transform twoTransforms = birdsEye := by
    simp [Perspective.transform, twoTransforms]
  have hinverse : InversePerspective.transform twoTransforms = camera := by
    simp [InversePerspective.transform, twoTransforms, hne]
  exact ⟨htransform ▸ isTransform_birdsEye, hinverse ▸ isTransform_camera⟩

/-- A pixel in the middle of the lane. -/
theorem perspective_inverse_pixel :
    twoTransforms.Exact ∧ denominator (Perspective.transform twoTransforms) ![640, 600] ≠ 0 ∧
      map (InversePerspective.transform twoTransforms)
        (map (Perspective.transform twoTransforms) ![640, 600]) = ![640, 600] := by
  have hne : denominator (Perspective.transform twoTransforms) ![640, 600] ≠ 0 := by decide +kernel
  exact ⟨exact_twoTransforms, hne,
    ((perspective_inverse twoTransforms exact_twoTransforms).1 _ hne).2⟩

end Vehicle.Recovery.Image
