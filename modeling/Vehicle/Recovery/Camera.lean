import Mathlib.Data.Rat.Cast.Defs
import Vehicle.Recovery.Part

/-!
# recovery: the lane tracker

`Camera::Run` of `camera.cpp`, from the thresholded picture on: the search for the two bases in the
first frame, the twelve windows of a frame, and the distance. The picture operations of OpenCV are
not modelled: a frame is any `ThreshImage`, and any `DispImage` as it is after the histogram has
been drawn into it. What is in `Array` is only drawn, so the model keeps the indices it is accessed
at (`Members.accesses`).

The members `lxPositon`, `lNum` and their right counterparts are of type `double`; they hold
integers small enough to be exact, and a base is their quotient without the fraction.
-/

namespace Vehicle.Recovery.Camera

/-! ### Pictures -/

/-- A picture in grey, by row and column. Outside of the picture stands what is in memory there. -/
abbrev Picture := ℤ → ℤ → UInt8

/-- A frame: `ThreshImage`, and the `DispImage` the first `Run` searches. -/
structure Frame where
  thresh : Picture
  disp : Picture

/-- The values of a loop variable that starts at `lo` and takes `n` values. -/
def upTo (lo : ℤ) (n : ℕ) : List ℤ := (List.range n).map fun k : ℕ => lo + k

/-- The bytes of a row after `cvtColor(.., COLOR_GRAY2BGR)`, three equal ones a pixel. -/
def toBGR (g : Picture) (row byte : ℤ) : UInt8 := g row (byte / 3)

/-- The test of a window scan, with `CurrRowP` at the pixel. -/
def nonzero (g : Picture) (row col : ℤ) : Bool :=
  toBGR g row (col * 3) != 0 || toBGR g row (col * 3 + 1) != 0 || toBGR g row (col * 3 + 2) != 0

/-! ### The members of `Camera` -/

/-- `Point3d`. -/
structure Point3d where
  x : ℤ
  y : ℤ
  z : ℤ
  deriving DecidableEq, Repr

/-- What `Camera` has twice: `LeftBase`, `LeftBaseTemp`, `lxPositon`, `lNum` and `ControlPts`, and
the same for the right. -/
structure Side where
  base : ℤ
  baseTemp : ℤ
  xPositon : ℤ
  num : ℤ
  controlPts : Fin 40 → Point3d

/-- The members of `Camera`. -/
structure Members where
  lock : ℤ
  thresh : ℤ
  left : Side
  right : Side

/-- A side after the constructor of `Camera`. -/
def Side.new : Side := ⟨10000, 0, -1, 0, fun _ => ⟨0, 0, 0⟩⟩

/-- The constructor of `Camera`. -/
def Members.new : Members := ⟨0, 720, .new, .new⟩

/-! ### The search for the bases -/

/-- A pixel of the search: `Thresh` and the base. -/
def find (disp : Picture) (row : ℤ) (found : ℤ × ℤ) (col : ℤ) : ℤ × ℤ :=
  if disp row col = 255 then if row < found.1 then (row, col) else found else found

/-- The search in the `n` columns from `lo` on. -/
def search (disp : Picture) (lo : ℤ) (n : ℕ) (thresh base : ℤ) : ℤ × ℤ :=
  (upTo 0 720).foldl (fun found row => (upTo lo n).foldl (find disp row) found) (thresh, base)

/-- The base with which a frame begins, and the control point below it. -/
def Side.place (s : Side) (base : ℤ) : Side :=
  { s with base := base, controlPts := Function.update s.controlPts 0 ⟨base, 720, 0⟩ }

/-- The start of `Camera::Run`: the bases are searched in the first frame, later ones begin where
the first window of the frame before ended. -/
def Members.locate (m : Members) (f : Frame) : Members :=
  if m.lock = 0 then
    let left := search f.disp 0 640 m.thresh m.left.base
    let right := search f.disp 640 640 720 m.right.base
    ⟨1, right.1, m.left.place left.2, m.right.place right.2⟩
  else { m with left := m.left.place m.left.baseTemp, right := m.right.place m.right.baseTemp }

/-! ### The windows -/

/-- A pixel of a window scan. -/
def Side.scan (g : Picture) (row : ℤ) (s : Side) (col : ℤ) : Side :=
  if nonzero g row col then { s with xPositon := s.xPositon + col, num := s.num + 1 } else s

/-- The columns of the window around a base. -/
def columns (base : ℤ) : List ℤ := upTo (base - 75) 150

/-- A row of a window scan. -/
def Side.scanRow (g : Picture) (s : Side) (row : ℤ) : Side := (columns s.base).foldl (.scan g row) s

/-- The rows of window `i`. -/
def windowRows (i : ℕ) : List ℤ := upTo (720 - 60 * (i + 1)) 60

/-- The scan of window `i`, left and right in turn. -/
def Members.scanWindow (g : Picture) (m : Members) (i : ℕ) : Members :=
  (windowRows i).foldl
    (fun m row => { m with left := m.left.scanRow g row, right := m.right.scanRow g row }) m

/-- The new base of a side, if a pixel was counted. -/
def Side.recentre (s : Side) : Side :=
  if s.num > 0 then { s with base := s.xPositon.tdiv s.num, num := 0, xPositon := 0 } else s

/-- A control point above window `i`. -/
def Side.control (s : Side) (k : Fin 40) (i : ℕ) : Side :=
  { s with controlPts := Function.update s.controlPts k ⟨s.base, 720 - 60 * (i + 2), 0⟩ }

/-- What is kept of the base after window `i`. -/
def Side.record (s : Side) (i : ℕ) : Side :=
  if i = 0 then { s with baseTemp := s.base }
  else if i = 4 then s.control 1 i
  else if i = 7 then s.control 2 i
  else if i = 10 then s.control 3 i
  else s

/-- Window `i` of a frame. -/
def Members.window (g : Picture) (m : Members) (i : ℕ) : Members :=
  let m := m.scanWindow g i
  { m with left := m.left.recentre.record i, right := m.right.recentre.record i }

/-- The windows of a frame before window `i`. -/
def Members.windows (g : Picture) (m : Members) (i : ℕ) : Members :=
  (List.range i).foldl (Members.window g) m

/-- **`Camera::Run`.** -/
def Members.run (m : Members) (f : Frame) : Members := (m.locate f).windows f.thresh 12

/-! ### The distance -/

/-- `Curb.x`, a mean that is stored in an `int`. -/
def Members.curbX (m : Members) : ℤ :=
  ((m.left.controlPts 2).x + (m.right.controlPts 2).x).tdiv 2

/-- `ControlPtsR[3].x - ControlPts[3].x`. -/
def Members.divisor (m : Members) : ℤ := (m.right.controlPts 3).x - (m.left.controlPts 3).x

/-- `distance`, unless it is a division by zero. -/
def Members.distance (m : Members) : Option ℚ :=
  if m.divisor = 0 then none else some ((m.curbX - 1280 / 2 : ℤ) * 3.75 / m.divisor)

/-! ### What is accessed -/

/-- An access to `Array`, or a read of a pixel through `CurrRowP`. -/
inductive Access
  | array (i : ℤ)
  | pixel (row col : ℤ)
  deriving DecidableEq, Repr

/-- The access is to the array, or to the picture. -/
def Access.InRange : Access → Prop
  | .array i => 0 ≤ i ∧ i < 1280
  | .pixel row col => (0 ≤ row ∧ row < 720) ∧ 0 ≤ col ∧ col < 1280

/-- The accesses to `Array`: it is cleared, it counts, and the histogram is drawn. -/
def arrayAccesses (g : Picture) : List Access :=
  (upTo 0 1280).map .array ++
    ((upTo 0 720).flatMap fun row =>
      (upTo 0 1280).flatMap fun col => if g row col = 255 then [.array col] else []) ++
    (upTo 0 1280).flatMap fun col => [.array col, .array (col + 1)]

/-- The reads of window `i`. -/
def Members.windowReads (m : Members) (i : ℕ) : List Access :=
  (windowRows i).flatMap fun row =>
    (columns m.left.base).map (.pixel row) ++ (columns m.right.base).map (.pixel row)

/-- The accesses of `Camera::Run`. -/
def Members.accesses (m : Members) (f : Frame) : List Access :=
  (if m.lock = 0 then arrayAccesses f.thresh else []) ++
    (List.range 12).flatMap fun i => ((m.locate f).windows f.thresh i).windowReads i

/-- The accesses of `Camera::Run` on the frames `fs`, one after the other. -/
def Members.accessesOn (m : Members) : List Frame → List Access
  | [] => []
  | f :: fs => m.accesses f ++ (m.run f).accessesOn fs

/-- The members after the frames `fs`. -/
def after (fs : List Frame) : Members := fs.foldl Members.run .new

/-- The members at the start of window `i` of the frame `f` that follows the frames `fs`. -/
def before (fs : List Frame) (f : Frame) (i : ℕ) : Members :=
  ((after fs).locate f).windows f.thresh i

end Vehicle.Recovery.Camera
