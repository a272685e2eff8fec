import Mathlib.Algebra.Order.Group.Abs
import Vehicle.Recovery.Lane

/-!
# recovery: the tracker follows a line

As long as the line on one side of the lane is seen in every window, stands alone around it, and
neither bends nor moves too far from one window to the next, the base is on the line after every
window of every frame (`follows`), and so are the control points through which the lane is drawn and
from which curvature and distance are computed. The room of one column is for the -1 with which the
sums start. Where both lines are followed, the distance from the centre is as exact as they are wide
(`distance_accuracy`).
-/

namespace Vehicle.Recovery.Camera

open Vehicle.Numeric

/-! ### One window -/

/-- The base is on a line whose pixels are within `w` of column `c`, or just left of it. -/
def On (c w base : ℤ) : Prop := c - w - 1 ≤ base ∧ base ≤ c + w

instance (c w base : ℤ) : Decidable (On c w base) :=
  inferInstanceAs (Decidable (c - w - 1 ≤ base ∧ base ≤ c + w))

/-- Window `i` shows a line within `w` of column `c`, and nothing else in reach of a base that is
within `d` of it. -/
structure Shows (g : Picture) (i : ℕ) (c w d : ℤ) : Prop where
  inside : 76 ≤ c - w - d ∧ c + w + d ≤ 1205
  seen : ∃ row ∈ windowRows i, ∃ col, c - w ≤ col ∧ col ≤ c + w ∧ g row col ≠ 0
  alone : ∀ row ∈ windowRows i, ∀ col, g row col ≠ 0 → c - w - d - 76 ≤ col →
    col ≤ c + w + d + 74 → c - w ≤ col ∧ col ≤ c + w

section Window

variable {g : Picture} {i : ℕ} {c w d : ℤ} {s : Side} {p : Prop}

theorem mem_pixels_iff {x : ℤ} : x ∈ s.pixels g i ↔
    (s.base - 75 ≤ x ∧ x < s.base + 75) ∧ ∃ row ∈ windowRows i, g row x ≠ 0 := by
  rw [show s.pixels g i = pixelsIn g i (columns s.base) from rfl, mem_pixelsIn, columns, mem_upTo]
  constructor
  · rintro ⟨hx, hrow⟩
    exact ⟨by omega, hrow⟩
  · rintro ⟨hx, hrow⟩
    exact ⟨by omega, hrow⟩

/-- **A window that shows the line comes to it** from within `d`. -/
theorem Shows.on_window (h : Shows g i c w d) (hnarrow : 2 * w + d ≤ 73) (hs : s.Ready p)
    (hlo : c - w - 1 - d ≤ s.base) (hhi : s.base ≤ c + w + d) : On c w (s.window g i).base := by
  have hinside := h.inside
  have hin : s.Inside := ⟨by omega, by omega⟩
  have hne : s.pixels g i ≠ [] := by
    obtain ⟨row, hrow, col, h1, h2, hcol⟩ := h.seen
    exact List.ne_nil_of_mem (mem_pixels_iff.mpr ⟨by omega, row, hrow, hcol⟩)
  have hpixels : ∀ x ∈ s.pixels g i, c - w ≤ x ∧ x ≤ c + w := by
    intro x hx
    obtain ⟨hrange, row, hrow, hcol⟩ := mem_pixels_iff.mp hx
    exact h.alone row hrow x hcol (by omega) (by omega)
  have hmean := tdiv_mem (by omega) hne hpixels
  have hbase := hs.window_mem hin hne
  exact ⟨by omega, by omega⟩

end Window

/-! ### Control points -/

/-- The control points, each with the window above which it is set. -/
def controls : List (Fin 40 × ℕ) := [(⟨1, by decide⟩, 4), (⟨2, by decide⟩, 7), (⟨3, by decide⟩, 10)]

section Control

variable {g : Picture} {s : Side} {fs : List Frame} {f : Frame} {h : Hand} {k : Fin 40} {i j : ℕ}

theorem mem_controls : (k, i) ∈ controls ↔ k = 1 ∧ i = 4 ∨ k = 2 ∧ i = 7 ∨ k = 3 ∧ i = 10 := by
  simp only [controls, List.mem_cons, Prod.mk.injEq, List.not_mem_nil, or_false]
  rfl

theorem window_control (hk : (k, i) ∈ controls) :
    ((s.window g i).controlPts k).x = (s.window g i).base := by
  rw [mem_controls] at hk
  obtain ⟨rfl, rfl⟩ | ⟨rfl, rfl⟩ | ⟨rfl, rfl⟩ := hk <;>
    simp [Side.window, Side.record, Side.control]

theorem control_of_ne {k' : Fin 40} (hk : k ≠ k') :
    (s.control k' i).controlPts k = s.controlPts k :=
  Function.update_of_ne hk _ _

/-- The other windows leave a control point alone. -/
theorem window_control_of_ne (hk : (k, j) ∉ controls) :
    (s.window g j).controlPts k = s.controlPts k := by
  rw [Side.window, Side.record]
  simp only [mem_controls, not_or] at hk
  obtain ⟨h1, h2, h3⟩ := hk
  split
  · exact congrFun scanWindow_recentre.2 k
  · split
    · rename_i hj
      rw [control_of_ne fun he => h1 ⟨he, hj⟩, scanWindow_recentre.2]
    · split
      · rename_i hj
        rw [control_of_ne fun he => h2 ⟨he, hj⟩, scanWindow_recentre.2]
      · split
        · rename_i hj
          rw [control_of_ne fun he => h3 ⟨he, hj⟩, scanWindow_recentre.2]
        · rw [scanWindow_recentre.2]

/-- **A control point is the base after its window.** -/
theorem control_eq (hk : (k, i) ∈ controls) :
    (((after (fs ++ [f])).side h).controlPts k).x = ((before fs f (i + 1)).side h).base := by
  have hi : i < 12 := by
    rw [mem_controls] at hk
    omega
  have hlater : ∀ j, i < j → (((before fs f j).side h).controlPts k).x =
      ((before fs f (i + 1)).side h).base := by
    intro j hj
    induction j, hj using Nat.le_induction with
    | base =>
      rw [before_succ, window_side]
      exact window_control hk
    | succ j hj ih =>
      have hother : (k, j) ∉ controls := by
        rw [mem_controls] at hk ⊢
        omega
      rw [before_succ, window_side, window_control_of_ne hother, ih]
  rw [after_snoc]
  exact hlater 12 hi

end Control

/-! ### All frames -/

/-- A line on the road: its column in every window of every frame, its half width, and how far it
goes from one window to the next. -/
structure Line where
  column : ℕ → ℕ → ℤ
  width : ℤ
  drift : ℤ

/-- The frames show the line on side `h`. -/
structure Line.Visible (l : Line) (fs : List Frame) (h : Hand) : Prop where
  narrow : 2 * l.width + l.drift ≤ 73
  shows : ∀ n f, fs[n]? = some f → ∀ i < 12, Shows f.thresh i (l.column n i) l.width l.drift
  /-- the line bends slowly -/
  bends : ∀ n < fs.length, ∀ i < 11, |l.column n (i + 1) - l.column n i| ≤ l.drift
  /-- it moves slowly -/
  moves : ∀ n, n + 1 < fs.length → |l.column (n + 1) 0 - l.column n 0| ≤ l.drift
  /-- and the search of the first frame comes near it -/
  found : ∀ f, fs[0]? = some f → l.column 0 0 - l.width - 1 - l.drift ≤
    ((before [] f 0).side h).base ∧ ((before [] f 0).side h).base ≤ l.column 0 0 + l.width + l.drift

section Frames

variable {l : Line} {fs : List Frame} {f : Frame} {h : Hand} {n i : ℕ}

theorem near_of_on {c c' w d base : ℤ} (hon : On c w base) (hd : |c' - c| ≤ d) :
    c' - w - 1 - d ≤ base ∧ base ≤ c' + w + d := by
  obtain ⟨h1, h2⟩ := abs_le.mp hd
  unfold On at hon
  omega

/-- In a frame that begins near the line. -/
theorem Line.Visible.on_windows (hv : l.Visible fs h) (hf : fs[n]? = some f)
    (hstart : l.column n 0 - l.width - 1 - l.drift ≤ ((before (fs.take n) f 0).side h).base ∧
      ((before (fs.take n) f 0).side h).base ≤ l.column n 0 + l.width + l.drift) (hi : i < 12) :
    On (l.column n i) l.width ((before (fs.take n) f (i + 1)).side h).base := by
  have hn : n < fs.length := (List.getElem?_eq_some_iff.mp hf).1
  induction i with
  | zero =>
    rw [before_succ, window_side]
    exact (hv.shows n f hf 0 hi).on_window hv.narrow (ready_before h _ f 0) hstart.1 hstart.2
  | succ i ih =>
    obtain ⟨h1, h2⟩ := near_of_on (ih (by omega)) (hv.bends n hn i (by omega))
    rw [before_succ, window_side]
    exact (hv.shows n f hf (i + 1) hi).on_window hv.narrow (ready_before h _ f (i + 1)) h1 h2

/-- Every frame begins near the line. -/
theorem Line.Visible.start (hv : l.Visible fs h) (hf : fs[n]? = some f) :
    l.column n 0 - l.width - 1 - l.drift ≤ ((before (fs.take n) f 0).side h).base ∧
      ((before (fs.take n) f 0).side h).base ≤ l.column n 0 + l.width + l.drift := by
  induction n generalizing f with
  | zero => exact hv.found f hf
  | succ n ih =>
    have hn : n + 1 < fs.length := (List.getElem?_eq_some_iff.mp hf).1
    have he : fs[n]? = some fs[n] := List.getElem?_eq_getElem (by omega)
    rw [List.take_add_one, he, Option.toList_some, next_base]
    exact near_of_on (hv.on_windows he (ih he) (by omega)) (hv.moves n hn)

/-- The control points are on it too. -/
theorem Line.Visible.on_control {k : Fin 40} (hv : l.Visible fs h) (hf : fs[n]? = some f)
    (hk : (k, i) ∈ controls) :
    On (l.column n i) l.width (((after (fs.take (n + 1))).side h).controlPts k).x := by
  have hi : i < 12 := by
    rw [mem_controls] at hk
    omega
  rw [List.take_add_one, hf, Option.toList_some, control_eq hk]
  exact hv.on_windows hf (hv.start hf) hi

/-- **The tracker follows the line**: in every frame the base is on the line after every window, and
so are the control points set above the windows 4, 7 and 10. -/
theorem follows (hv : l.Visible fs h) (hf : fs[n]? = some f) :
    (∀ i < 12, On (l.column n i) l.width ((before (fs.take n) f (i + 1)).side h).base) ∧
      ∀ k i, (k, i) ∈ controls →
        On (l.column n i) l.width (((after (fs.take (n + 1))).side h).controlPts k).x :=
  ⟨fun _ hi => hv.on_windows hf (hv.start hf) hi, fun _ _ hk => hv.on_control hf hk⟩

end Frames

/-! ### Straight lines -/

/-- A picture in which the line is the only column within reach. -/
theorem shows_column {g : Picture} {c : ℤ} (hc : 76 ≤ c ∧ c ≤ 1205)
    (hg : ∀ row col, c - 76 ≤ col → col ≤ c + 74 → (g row col ≠ 0 ↔ col = c)) (i : ℕ) :
    Shows g i c 0 0 := by
  refine ⟨by omega, ?_, ?_⟩
  · refine ⟨720 - 60 * (i + 1), ?_, c, by omega, by omega, (hg _ _ (by omega) (by omega)).mpr rfl⟩
    rw [windowRows, mem_upTo]
    omega
  · intro row _ col hcol h1 h2
    have heq := (hg row col (by omega) (by omega)).mp hcol
    omega

/-- The same frame twice, where the search finds the column. -/
theorem visible_column {f : Frame} {h : Hand} {c : ℤ} (hshows : ∀ i, Shows f.thresh i c 0 0)
    (hstart : ((before [] f 0).side h).base = c) :
    (Line.mk (fun _ _ => c) 0 0).Visible [f, f] h where
  narrow := by simp
  shows n f' hf i _ := by
    obtain rfl : f' = f := by
      have hmem := List.mem_of_getElem? hf
      simpa using hmem
    exact hshows i
  bends n _ i _ := by simp
  moves n _ := by simp
  found f' hf := by
    obtain rfl : f = f' := by simpa using hf
    rw [hstart]
    simp

/-- A frame with a line in column 300, where the histogram has its peak too. -/
def straight : Frame where
  thresh _ col := if col = 300 then 255 else 0
  disp row col := if row = 10 ∧ col = 300 then 255 else 0

/-- The line in it. -/
def middle : Line := ⟨fun _ _ => 300, 0, 0⟩

theorem straight_start : ((before [] straight 0).side .left).base = 300 := by
  have hpixel : ∀ row col : ℤ, straight.disp row col = 255 → col = 300 := by
    intro row col h
    simp only [straight] at h
    split at h
    · rename_i hpos
      exact hpos.2
    · cases h
  obtain ⟨h255, -, -⟩ := search_found 0 640 720 10000 (by decide) (by decide) (by decide)
    (show straight.disp 10 300 = 255 from rfl)
  exact (before_nil_zero straight).1.trans (hpixel _ _ h255)

theorem straight_visible : middle.Visible [straight, straight] .left :=
  visible_column (shows_column (by omega) fun row col _ _ => by simp [straight]) straight_start

/-- The tracker follows it in the second frame. -/
theorem follows_straight :
    (∀ i < 12, On (middle.column 1 i) middle.width
      ((before ([straight, straight].take 1) straight (i + 1)).side .left).base) ∧
      ∀ k i, (k, i) ∈ controls → On (middle.column 1 i) middle.width
        (((after ([straight, straight].take (1 + 1))).side .left).controlPts k).x :=
  follows straight_visible rfl

/-! ### The distance from the centre -/

/-- How far the car is from the centre of the lane between two lines: in window 7, in lanes that are
as wide as this one is in window 10. -/
def centreDistance (l r : Line) (n : ℕ) : ℚ :=
  ((l.column n 7 + r.column n 7 : ℚ) / 2 - 640) * 3.75 / (r.column n 10 - l.column n 10)

section Distance

variable {l r : Line} {fs : List Frame} {f : Frame} {n : ℕ}

/-- The divisor, up to the widths of the lines. -/
theorem divisor_mem (hl : l.Visible fs .left) (hr : r.Visible fs .right) (hf : fs[n]? = some f) :
    |(after (fs.take (n + 1))).divisor - (r.column n 10 - l.column n 10)| ≤
      l.width + r.width + 1 := by
  have h3 : ((3 : Fin 40), 10) ∈ controls := by decide
  have hleft := hl.on_control hf h3
  have hright := hr.on_control hf h3
  rw [Members.divisor, abs_le]
  simp only [On, Members.side] at hleft hright
  omega

/-- Twice the centre, as it is rounded. -/
theorem curbX_mem (hl : l.Visible fs .left) (hr : r.Visible fs .right) (hf : fs[n]? = some f) :
    l.column n 7 + r.column n 7 - (l.width + r.width + 3) ≤ 2 * (after (fs.take (n + 1))).curbX ∧
      2 * (after (fs.take (n + 1))).curbX ≤ l.column n 7 + r.column n 7 + (l.width + r.width) := by
  have h2 : ((2 : Fin 40), 7) ∈ controls := by decide
  have hleft := hl.on_control hf h2
  have hright := hr.on_control hf h2
  have hlin := (hl.shows n _ hf 7 (by omega)).inside
  have hrin := (hr.shows n _ hf 7 (by omega)).inside
  have hn := (List.getElem?_eq_some_iff.mp hf).1
  have hld := (abs_nonneg _).trans (hl.bends n hn 0 (by omega))
  have hrd := (abs_nonneg _).trans (hr.bends n hn 0 (by omega))
  simp only [On, Members.side] at hleft hright
  rw [Members.curbX, Int.tdiv_eq_ediv_of_nonneg (by omega)]
  omega

/-- The dividend, up to the widths of the lines and what is lost by rounding. -/
theorem dividend_mem (hl : l.Visible fs .left) (hr : r.Visible fs .right) (hf : fs[n]? = some f) :
    |((after (fs.take (n + 1))).curbX - 1280 / 2 : ℤ) * 3.75 -
        ((l.column n 7 + r.column n 7 : ℚ) / 2 - 640) * 3.75| ≤
      (l.width + r.width + 3) / 2 * 3.75 := by
  obtain ⟨hlo, hhi⟩ := curbX_mem hl hr hf
  have hlo' : (l.column n 7 + r.column n 7 - (l.width + r.width + 3) : ℚ) ≤
      2 * (after (fs.take (n + 1))).curbX := by exact_mod_cast hlo
  have hhi' : (2 * (after (fs.take (n + 1))).curbX : ℚ) ≤
      l.column n 7 + r.column n 7 + (l.width + r.width) := by exact_mod_cast hhi
  rw [abs_le]
  push_cast
  constructor <;> linarith

/-- **The accuracy of the distance**: where both lines are visible, and further apart than they are
wide, there is no division by zero, and the distance is that from the centre, up to the widths of
the lines and three half columns. It has the right sign where the centre is further than that from
the middle of the picture. -/
theorem distance_accuracy (hl : l.Visible fs .left) (hr : r.Visible fs .right)
    (hf : fs[n]? = some f) (hgap : l.width + r.width + 1 < r.column n 10 - l.column n 10) :
    ∃ v, (after (fs.take (n + 1))).distance = some v ∧
      |v - centreDistance l r n| ≤
        ((l.width + r.width + 3) / 2 * 3.75 + |centreDistance l r n| * (l.width + r.width + 1)) /
          (r.column n 10 - l.column n 10 - (l.width + r.width + 1)) ∧
      (l.column n 7 + r.column n 7 + (l.width + r.width) < 1280 → v < 0) ∧
      (1283 + (l.width + r.width) < l.column n 7 + r.column n 7 → 0 < v) := by
  have hdiv := divisor_mem hl hr hf
  obtain ⟨hlo, hhi⟩ := curbX_mem hl hr hf
  have hpos : 0 < (after (fs.take (n + 1))).divisor := by
    have hge := (abs_le.mp hdiv).1
    omega
  have hposQ : (0 : ℚ) < (after (fs.take (n + 1))).divisor := by exact_mod_cast hpos
  refine ⟨_, if_neg hpos.ne', ?_, fun hleft => ?_, fun hright => ?_⟩
  · refine abs_div_sub_div_le (dividend_mem hl hr hf) ?_ (by exact_mod_cast hgap)
    exact_mod_cast hdiv
  · have hneg : (after (fs.take (n + 1))).curbX - 1280 / 2 < 0 := by omega
    refine div_neg_of_neg_of_pos (mul_neg_of_neg_of_pos ?_ (by norm_num)) hposQ
    exact_mod_cast hneg
  · have hpos' : 0 < (after (fs.take (n + 1))).curbX - 1280 / 2 := by omega
    refine div_pos (mul_pos ?_ (by norm_num)) hposQ
    exact_mod_cast hpos'

end Distance

/-- A frame with lines in the columns 300 and 900. -/
def lane : Frame where
  thresh _ col := if col = 300 ∨ col = 900 then 255 else 0
  disp row col := if row = 10 ∧ (col = 300 ∨ col = 900) then 255 else 0

theorem lane_start :
    ((before [] lane 0).side .left).base = 300 ∧ ((before [] lane 0).side .right).base = 900 := by
  have hpixel : ∀ row col : ℤ, lane.disp row col = 255 → col = 300 ∨ col = 900 := by
    intro row col h
    simp only [lane] at h
    split at h
    · rename_i hpos
      exact hpos.2
    · cases h
  obtain ⟨hl, -, hlt⟩ := search_found 0 640 720 10000 (by decide) (by decide) (by decide)
    (show lane.disp 10 300 = 255 from rfl)
  obtain ⟨hr, hge, -⟩ := search_found 640 640 720 10000 (by decide) (by decide) (by decide)
    (show lane.disp 10 900 = 255 from rfl)
  have hl' := hpixel _ _ hl
  have hr' := hpixel _ _ hr
  rw [← (before_nil_zero lane).1] at hl' hlt
  rw [← (before_nil_zero lane).2] at hr' hge
  simp only [Members.side]
  omega

theorem lane_shows {c : ℤ} (hc : c = 300 ∨ c = 900) (i : ℕ) : Shows lane.thresh i c 0 0 := by
  refine shows_column (by omega) (fun row col h1 h2 => ?_) i
  have hcol : (col = 300 ∨ col = 900) ↔ col = c := by omega
  simp [lane, hcol]

/-- In a lane whose centre is 40 columns to the left, and which is 600 columns wide. -/
theorem distance_accuracy_lane :
    ∃ v, (after ([lane, lane].take (1 + 1))).distance = some v ∧
      |v - centreDistance ⟨fun _ _ => 300, 0, 0⟩ ⟨fun _ _ => 900, 0, 0⟩ 1| ≤
        (3 / 2 * 3.75 +
          |centreDistance ⟨fun _ _ => 300, 0, 0⟩ ⟨fun _ _ => 900, 0, 0⟩ 1| * 1) / (600 - 1) ∧
      v < 0 := by
  obtain ⟨v, hv, hle, hneg, -⟩ := distance_accuracy
    (visible_column (lane_shows (.inl rfl)) lane_start.1)
    (visible_column (lane_shows (.inr rfl)) lane_start.2)
    (show [lane, lane][1]? = some lane from rfl) (by decide)
  refine ⟨v, hv, ?_, hneg (by decide)⟩
  norm_num at hle ⊢
  exact hle

end Vehicle.Recovery.Camera
