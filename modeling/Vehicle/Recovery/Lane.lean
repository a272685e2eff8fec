import Mathlib.Data.List.Perm.Basic
import Vehicle.Recovery.Window

/-!
# recovery: left stays left of right

The two windows of the lane tracker may overlap, and then count the same pixels, but the mean of the
left one never passes the mean of the right one (`pixels_meanLe`). So the bases keep their order
from window to window and from frame to frame (`lane_ordered`), except where the -1 with which the
sums start moves the right base alone (`RightOff`). They may meet (`lane_lost`), and then the
distance is a division by zero.
-/

namespace Vehicle.Recovery.Camera

open Vehicle.Numeric

/-! ### Two windows that may overlap -/

/-- The columns of the pixels of window `i` that are not zero, among the columns `cols`. -/
def pixelsIn (g : Picture) (i : ℕ) (cols : List ℤ) : List ℤ :=
  (windowRows i).flatMap fun row => cols.filter fun col => g row col != 0

section Overlap

variable {g : Picture} {i : ℕ} {l r s : Side} {c d : Prop}

theorem upTo_add (lo : ℤ) (m n : ℕ) : upTo lo (m + n) = upTo lo m ++ upTo (lo + m) n := by
  simp [upTo, List.range_add, add_assoc]

theorem mem_pixelsIn {cols : List ℤ} {x : ℤ} :
    x ∈ pixelsIn g i cols ↔ x ∈ cols ∧ ∃ row ∈ windowRows i, g row x ≠ 0 := by
  simp only [pixelsIn, List.mem_flatMap, List.mem_filter, bne_iff_ne]
  constructor
  · rintro ⟨row, hrow, hx, hne⟩
    exact ⟨hx, row, hrow, hne⟩
  · rintro ⟨hx, row, hrow, hne⟩
    exact ⟨row, hrow, hx, hne⟩

theorem pixelsIn_append (xs ys : List ℤ) :
    (pixelsIn g i xs ++ pixelsIn g i ys).Perm (pixelsIn g i (xs ++ ys)) := by
  unfold pixelsIn
  simp only [List.filter_append]
  exact List.flatMap_append_perm _ _ _

/-- **The means of two windows are in the order of the windows**, whether they overlap or not. -/
theorem pixels_meanLe (h : l.base ≤ r.base) : MeanLe (l.pixels g i) (r.pixels g i) := by
  by_cases hlap : r.base - l.base ≤ 150
  · -- the columns of the left alone, those of both, and those of the right alone
    obtain ⟨k, hk⟩ : ∃ k : ℕ, (k : ℤ) = r.base - l.base := ⟨(r.base - l.base).toNat, by omega⟩
    have hl : columns l.base = upTo (l.base - 75) k ++ upTo (r.base - 75) (150 - k) := by
      have hsplit := upTo_add (l.base - 75) k (150 - k)
      rwa [show k + (150 - k) = 150 by omega, show l.base - 75 + k = r.base - 75 by omega]
        at hsplit
    have hr : columns r.base = upTo (r.base - 75) (150 - k) ++ upTo (l.base + 75) k := by
      have hsplit := upTo_add (r.base - 75) (150 - k) k
      rwa [show 150 - k + k = 150 by omega,
        show r.base - 75 + (150 - k : ℕ) = l.base + 75 by omega] at hsplit
    have hmean : MeanLe
        (pixelsIn g i (upTo (l.base - 75) k) ++ pixelsIn g i (upTo (r.base - 75) (150 - k)))
        (pixelsIn g i (upTo (r.base - 75) (150 - k)) ++ pixelsIn g i (upTo (l.base + 75) k)) := by
      refine mean_le_overlap ?_ ?_
      · intro x hx y hy
        rw [List.mem_append] at hy
        simp only [mem_pixelsIn, mem_upTo] at hx hy
        omega
      · intro x hx y hy
        simp only [mem_pixelsIn, mem_upTo] at hx hy
        omega
    have hperml := pixelsIn_append (g := g) (i := i) (upTo (l.base - 75) k)
      (upTo (r.base - 75) (150 - k))
    have hpermr := pixelsIn_append (g := g) (i := i) (upTo (r.base - 75) (150 - k))
      (upTo (l.base + 75) k)
    rw [← hl] at hperml
    rw [← hr] at hpermr
    exact hmean.perm hperml hpermr
  · refine MeanLe.of_forall fun x hx y hy => ?_
    have h1 := mem_pixels hx
    have h2 := mem_pixels hy
    omega

/-- Where the right window is empty, the pixels of the left one stand beyond it. -/
theorem lt_of_right_nil (h : l.base ≤ r.base) (hr : r.pixels g i = []) {x : ℤ}
    (hx : x ∈ l.pixels g i) : x < r.base - 75 := by
  by_contra hge
  have hmem := mem_pixels hx
  have hx' : x ∈ r.pixels g i :=
    mem_pixelsIn.mpr ⟨mem_upTo.mpr (by omega), (mem_pixelsIn.mp hx).2⟩
  rw [hr] at hx'
  cases hx'

/-- Where the left window is empty, the pixels of the right one stand beyond it. -/
theorem gt_of_left_nil (h : l.base ≤ r.base) (hl : l.pixels g i = []) {x : ℤ}
    (hx : x ∈ r.pixels g i) : l.base + 75 ≤ x := by
  by_contra hlt
  have hmem := mem_pixels hx
  have hx' : x ∈ l.pixels g i :=
    mem_pixelsIn.mpr ⟨mem_upTo.mpr (by omega), (mem_pixelsIn.mp hx).2⟩
  rw [hl] at hx'
  cases hx'

/-! ### One window -/

theorem pixels_nonneg (hin : s.Inside) {x : ℤ} (hx : x ∈ s.pixels g i) : 0 ≤ x := by
  have hmem := mem_pixels hx
  have hlo := hin.1
  omega

theorem sum_nonneg (hin : s.Inside) : 0 ≤ (s.pixels g i).sum :=
  List.sum_nonneg fun _ hx => pixels_nonneg hin hx

/-- Where a window is recentred on the mean of its pixels. -/
theorem Side.Ready.window_exact (hs : s.Ready c) (hin : s.Inside) (hne : s.pixels g i ≠ [])
    (h : c ∨ ¬ ((s.pixels g i).length : ℤ) ∣ (s.pixels g i).sum) :
    (s.window g i).base = (s.pixels g i).sum.tdiv (s.pixels g i).length := by
  refine ((hs.recentres hin).mpr ?_).mean hne
  rcases h with hc | hdvd
  · exact Or.inr (Or.inl hc)
  · exact Or.inr (Or.inr (Or.inl hdvd))

/-- Elsewhere the sums are one short. -/
theorem Side.Ready.window_fresh (hs : s.Ready c) (hne : s.pixels g i ≠ []) (hc : ¬ c) :
    (s.window g i).base = (-1 + (s.pixels g i).sum).tdiv (s.pixels g i).length := by
  rw [(window_of_ne hs.num hne).1, hs.fresh hc]

/-- The base never passes the mean, and is at most one short of it. -/
theorem Side.Ready.window_mem (hs : s.Ready c) (hin : s.Inside) (hne : s.pixels g i ≠ []) :
    (s.pixels g i).sum.tdiv (s.pixels g i).length - 1 ≤ (s.window g i).base ∧
      (s.window g i).base ≤ (s.pixels g i).sum.tdiv (s.pixels g i).length := by
  have hpos : 0 < ((s.pixels g i).length : ℤ) := by
    exact_mod_cast List.length_pos_iff.mpr hne
  by_cases hc : c
  · rw [hs.window_exact hin hne (Or.inl hc)]
    omega
  · rw [hs.window_fresh hne hc]
    exact tdiv_pred_mem (sum_nonneg hin) hpos

/-- Two windows that both count pixels. -/
theorem window_le_of_ne (hl : l.Ready c) (hr : r.Ready d) (hinl : l.Inside) (hinr : r.Inside)
    (h : l.base ≤ r.base) (hpl : l.pixels g i ≠ []) (hpr : r.pixels g i ≠ [])
    (hoff : c → d ∨ ¬ ((r.pixels g i).length : ℤ) ∣ (r.pixels g i).sum) :
    (l.window g i).base ≤ (r.window g i).base := by
  have hmean : MeanLe (l.pixels g i) (r.pixels g i) := pixels_meanLe h
  by_cases hexact : d ∨ ¬ ((r.pixels g i).length : ℤ) ∣ (r.pixels g i).sum
  · -- the right base comes to the mean of its pixels
    have hupper := (hl.window_mem hinl hpl).2
    rw [hr.window_exact hinr hpr hexact, Int.tdiv_eq_ediv_of_nonneg (sum_nonneg hinr)]
    rw [Int.tdiv_eq_ediv_of_nonneg (sum_nonneg hinl)] at hupper
    exact hupper.trans (ediv_le_ediv_of_mean hmean hpl hpr)
  · -- both sums start with -1
    have hc : ¬ c := fun hc => hexact (hoff hc)
    have hd : ¬ d := fun hd => hexact (Or.inl hd)
    rw [hl.window_fresh hpl hc, hr.window_fresh hpr hd]
    rcases h.eq_or_lt with heq | hlt
    · have hpixels : l.pixels g i = r.pixels g i := by
        unfold Side.pixels
        rw [heq]
      rw [hpixels]
    · refine tdiv_pred_le_of_mean hmean hpl hpr (sum_nonneg hinl) ?_
      have hone : ∀ x ∈ r.pixels g i, 1 ≤ x := by
        intro x hx
        have hmem := mem_pixels hx
        have hlo := hinl.1
        omega
      have hlen := mul_length_le_sum hone
      have hpos : 0 < ((r.pixels g i).length : ℤ) := by
        exact_mod_cast List.length_pos_iff.mpr hpr
      omega

/-- **A window keeps the order of the bases**, if the right one is not moved alone by the -1 with
which its sums start. -/
theorem window_le (hl : l.Ready c) (hr : r.Ready d) (hinl : l.Inside) (hinr : r.Inside)
    (h : l.base ≤ r.base)
    (hoff : c → r.pixels g i ≠ [] → d ∨ ¬ ((r.pixels g i).length : ℤ) ∣ (r.pixels g i).sum) :
    (l.window g i).base ≤ (r.window g i).base := by
  by_cases hpl : l.pixels g i = []
  · rw [(window_of_nil hl.num hpl).1]
    by_cases hpr : r.pixels g i = []
    · rw [(window_of_nil hr.num hpr).1]
      exact h
    · have hbound : ∀ x ∈ r.pixels g i, l.base + 75 ≤ x ∧ x ≤ r.base + 74 :=
        fun x hx => ⟨gt_of_left_nil h hpl hx, (mem_pixels hx).2⟩
      have hlo := hinl.1
      have hmem := tdiv_mem (by omega) hpr hbound
      have hlower := (hr.window_mem hinr hpr).1
      omega
  · by_cases hpr : r.pixels g i = []
    · rw [(window_of_nil hr.num hpr).1]
      have hbound : ∀ x ∈ l.pixels g i, 0 ≤ x ∧ x ≤ r.base - 75 :=
        fun x hx => ⟨pixels_nonneg hinl hx, (lt_of_right_nil h hpr hx).le⟩
      have hmem := tdiv_mem le_rfl hpl hbound
      have hupper := (hl.window_mem hinl hpl).2
      omega
    · exact window_le_of_ne hl hr hinl hinr h hpl hpr fun hc => hoff hc hpr

/-- How far a window moves a base to the right. -/
theorem Side.Ready.window_upper (hs : s.Ready c) (hin : s.Inside) :
    (s.window g i).base ≤ s.base + 74 := by
  by_cases hp : s.pixels g i = []
  · rw [(window_of_nil hs.num hp).1]
    omega
  · have hlo := hin.1
    have hmem := tdiv_mem (by omega) hp fun x hx => mem_pixels hx
    have hupper := (hs.window_mem hin hp).2
    omega

/-- Sums that start with -1 do not move it to the last column. -/
theorem Side.Ready.window_upper_fresh (hs : s.Ready c) (hin : s.Inside) (hc : ¬ c) :
    (s.window g i).base < s.base + 74 := by
  by_cases hp : s.pixels g i = []
  · rw [(window_of_nil hs.num hp).1]
    omega
  · have hpos : 0 < ((s.pixels g i).length : ℤ) := by
      exact_mod_cast List.length_pos_iff.mpr hp
    have hsum := sum_le_mul_length fun x (hx : x ∈ s.pixels g i) => (mem_pixels hx).2
    have hlo := hin.1
    rw [hs.window_fresh hp hc]
    rcases (sum_nonneg (g := g) (i := i) hin).eq_or_lt with h0 | hpos'
    · have hle := (tdiv_pred_mem (sum_nonneg (g := g) (i := i) hin) hpos).2
      rw [← h0, Int.zero_tdiv] at hle
      rw [← h0]
      omega
    · rw [Int.tdiv_eq_ediv_of_nonneg (by omega)]
      exact Int.ediv_lt_of_lt_mul hpos (by omega)

/-- **Windows that lie apart** leave the left base left of the right one. -/
theorem window_lt (hl : l.Ready c) (hr : r.Ready d) (hinl : l.Inside) (hinr : r.Inside)
    (h : l.base + 150 ≤ r.base)
    (hoff : c → r.pixels g i ≠ [] → d ∨ ¬ ((r.pixels g i).length : ℤ) ∣ (r.pixels g i).sum) :
    (l.window g i).base < (r.window g i).base := by
  have hleft : (l.window g i).base ≤ l.base + 74 := hl.window_upper hinl
  by_cases hpr : r.pixels g i = []
  · rw [(window_of_nil hr.num hpr).1]
    omega
  · have hlo := hinr.1
    have hmem := tdiv_mem (by omega) hpr fun x hx => mem_pixels hx
    by_cases hexact : d ∨ ¬ ((r.pixels g i).length : ℤ) ∣ (r.pixels g i).sum
    · rw [hr.window_exact hinr hpr hexact]
      omega
    · have hc : ¬ c := fun hc => hexact (hoff hc hpr)
      have hstrict : (l.window g i).base < l.base + 74 := hl.window_upper_fresh hinl hc
      have hright := (hr.window_mem hinr hpr).1
      omega

end Overlap

/-! ### From frame to frame -/

section Frames

variable {g : Picture} {m : Members} {s : Side} {fs : List Frame} {e f : Frame} {i : ℕ} {h : Hand}

theorem scanWindow_lock : (m.scanWindow g i).lock = m.lock := by
  unfold Members.scanWindow
  induction windowRows i generalizing m with
  | nil => rfl
  | cons row rows ih =>
    rw [List.foldl_cons, ih]

theorem windows_lock : (m.windows g i).lock = m.lock := by
  induction i with
  | zero => simp [Members.windows]
  | succ i ih =>
    calc (m.windows g (i + 1)).lock
        = ((m.windows g i).scanWindow g i).lock := by rw [windows_succ, Members.window]
      _ = (m.windows g i).lock := scanWindow_lock
      _ = m.lock := ih

/-- Only the first `Run` searches. -/
theorem before_lock : (before fs f i).lock ≠ 0 := by
  unfold before
  rw [windows_lock]
  unfold Members.locate
  split
  · exact one_ne_zero
  · assumption

/-- A window leaves the rest of a side as it is, up to what is kept of the base. -/
theorem scanWindow_recentre : ((s.scanWindow g i).recentre).baseTemp = s.baseTemp ∧
    ((s.scanWindow g i).recentre).controlPts = s.controlPts := by
  rw [scanWindow_eq]
  unfold Side.recentre
  split
  · exact ⟨rfl, rfl⟩
  · exact ⟨rfl, rfl⟩

theorem window_zero_baseTemp : (s.window g 0).baseTemp = (s.window g 0).base := by
  simp [Side.window, Side.record]

theorem record_succ_baseTemp : (s.record (i + 1)).baseTemp = s.baseTemp := by
  unfold Side.record Side.control
  rw [if_neg (Nat.succ_ne_zero i)]
  split
  · rfl
  · split
    · rfl
    · split <;> rfl

theorem window_succ_baseTemp : (s.window g (i + 1)).baseTemp = s.baseTemp :=
  record_succ_baseTemp.trans scanWindow_recentre.1

theorem window_ten : ((s.window g 10).controlPts 3).x = (s.window g 10).base := by
  simp [Side.window, Side.record, Side.control]

theorem window_eleven : (s.window g 11).controlPts = s.controlPts :=
  scanWindow_recentre.2

/-- What is kept for the next frame is the base after the first window. -/
theorem before_baseTemp (i : ℕ) :
    ((before fs f (i + 1)).side h).baseTemp = ((before fs f 1).side h).base := by
  induction i with
  | zero => rw [before_succ, window_side, window_zero_baseTemp]
  | succ i ih => rw [before_succ, window_side, window_succ_baseTemp, ih]

/-- **A frame begins where the first window of the frame before ended.** -/
theorem next_base (fs : List Frame) (e f : Frame) (h : Hand) :
    ((before (fs ++ [e]) f 0).side h).base = ((before fs e 1).side h).base := by
  rw [before_zero, after_snoc, ← before_baseTemp 11, Members.locate, if_neg before_lock]
  cases h <;> rfl

/-- **The divisor is the distance of the bases at the last window.** -/
theorem divisor_eq (fs : List Frame) (f : Frame) :
    (after (fs ++ [f])).divisor = (before fs f 11).right.base - (before fs f 11).left.base := by
  have hpoint : ∀ h, (((before fs f 12).side h).controlPts 3).x =
      ((before fs f 11).side h).base := by
    intro h
    rw [before_succ, window_side, window_eleven, before_succ, window_side, window_ten]
  have hleft := hpoint .left
  have hright := hpoint .right
  rw [after_snoc, Members.divisor]
  exact congrArg₂ (· - ·) hright hleft

end Frames

/-! ### The order of the bases -/

/-- The search for the bases finds one in each half. -/
def Frame.Found (f : Frame) : Prop :=
  (0 ≤ (search f.disp 0 640 720 10000).2 ∧ (search f.disp 0 640 720 10000).2 < 640) ∧
    640 ≤ (search f.disp 640 640 720 10000).2 ∧ (search f.disp 640 640 720 10000).2 < 1280

/-- **The right base alone is off**: it has counted no pixel before window `i`, so that its sums
start with -1, which the mean of this window notices, and the left one has. -/
def RightOff (fs : List Frame) (f : Frame) (i : ℕ) : Prop :=
  Counted .left fs f i ∧ ¬ Counted .right fs f i ∧ (before fs f i).right.pixels f.thresh i ≠ [] ∧
    (((before fs f i).right.pixels f.thresh i).length : ℤ) ∣
      ((before fs f i).right.pixels f.thresh i).sum

/-- The frames start from two bases that are found, the windows lie in the picture, and the right
base is never off alone. -/
structure Followed (fs : List Frame) : Prop where
  found : ∀ f ∈ fs.head?, f.Found
  inside : ∀ pre f post, fs = pre ++ f :: post → ∀ i < 12,
    (before pre f i).left.Inside ∧ (before pre f i).right.Inside
  even : ∀ pre f post, fs = pre ++ f :: post → ∀ i < 12, ¬ RightOff pre f i

/-- **The bases of the frame `f` are in order**, and so is the divisor. -/
structure InOrder (fs : List Frame) (f : Frame) : Prop where
  first : fs = [] → (before fs f 0).left.base < (before fs f 0).right.base
  le : ∀ i ≤ 12, (before fs f i).left.base ≤ (before fs f i).right.base
  apart : ∀ i < 12, (before fs f i).left.base + 150 ≤ (before fs f i).right.base →
    (before fs f (i + 1)).left.base < (before fs f (i + 1)).right.base
  divisor : 0 ≤ (after (fs ++ [f])).divisor
  distance : (after (fs ++ [f])).distance = none ↔
    (before fs f 11).left.base = (before fs f 11).right.base

section Order

variable {fs post : List Frame} {f : Frame} {i : ℕ}

theorem head_of_singleton {e : Frame} (h : [e] = fs ++ f :: post) : fs = [] ∧ f = e := by
  obtain ⟨rfl, hcons⟩ | ⟨-, hnil⟩ := List.singleton_eq_append_iff.mp h
  · exact ⟨rfl, (List.cons_eq_cons.mp hcons.symm).1.symm⟩
  · cases hnil

theorem Followed.start (h : Followed (fs ++ f :: post)) : Followed (fs ++ [f]) := by
  refine ⟨?_, ?_, ?_⟩
  · intro e he
    refine h.found e ?_
    cases fs with
    | nil => exact he
    | cons d ds => exact he
  · intro pre e rest heq
    refine h.inside pre e (rest ++ post) ?_
    rw [← List.cons_append, ← List.append_assoc, ← heq]
    simp
  · intro pre e rest heq
    refine h.even pre e (rest ++ post) ?_
    rw [← List.cons_append, ← List.append_assoc, ← heq]
    simp

theorem Followed.first (h : Followed [f]) :
    (before [] f 0).left.base < (before [] f 0).right.base := by
  obtain ⟨hleft, hright⟩ := h.found f rfl
  rw [(before_nil_zero f).1, (before_nil_zero f).2]
  omega

/-- What the right side does in a window, where it is not off alone. -/
theorem not_rightOff (h : ¬ RightOff fs f i) (hc : Counted .left fs f i)
    (hne : (before fs f i).right.pixels f.thresh i ≠ []) :
    Counted .right fs f i ∨
      ¬ (((before fs f i).right.pixels f.thresh i).length : ℤ) ∣
        ((before fs f i).right.pixels f.thresh i).sum := by
  by_contra hno
  rw [not_or, not_not] at hno
  exact h ⟨hc, hno.1, hne, hno.2⟩

theorem Followed.step (h : Followed (fs ++ [f])) (hi : i < 12)
    (hle : (before fs f i).left.base ≤ (before fs f i).right.base) :
    (before fs f (i + 1)).left.base ≤ (before fs f (i + 1)).right.base := by
  obtain ⟨hinl, hinr⟩ := h.inside fs f [] rfl i hi
  have heven := h.even fs f [] rfl i hi
  have hstep := window_le (g := f.thresh) (i := i) (ready_before .left fs f i)
    (ready_before .right fs f i) hinl hinr hle (not_rightOff heven)
  rw [← window_side, ← window_side, ← before_succ] at hstep
  exact hstep

theorem Followed.apart (h : Followed (fs ++ [f])) (hi : i < 12)
    (hlt : (before fs f i).left.base + 150 ≤ (before fs f i).right.base) :
    (before fs f (i + 1)).left.base < (before fs f (i + 1)).right.base := by
  obtain ⟨hinl, hinr⟩ := h.inside fs f [] rfl i hi
  have heven := h.even fs f [] rfl i hi
  have hstep := window_lt (g := f.thresh) (i := i) (ready_before .left fs f i)
    (ready_before .right fs f i) hinl hinr hlt (not_rightOff heven)
  rw [← window_side, ← window_side, ← before_succ] at hstep
  exact hstep

/-- The windows of a frame. -/
theorem Followed.windows (h : Followed (fs ++ [f]))
    (h0 : (before fs f 0).left.base ≤ (before fs f 0).right.base) (hi : i ≤ 12) :
    (before fs f i).left.base ≤ (before fs f i).right.base := by
  induction i with
  | zero => exact h0
  | succ i ih => exact h.step hi (ih (by omega))

/-- The windows of all frames. -/
theorem Followed.le (h : Followed (fs ++ [f])) (hi : i ≤ 12) :
    (before fs f i).left.base ≤ (before fs f i).right.base := by
  induction fs using List.reverseRecOn generalizing f i with
  | nil => exact h.windows h.first.le hi
  | append_singleton fs e ih =>
    refine h.windows ?_ hi
    rw [List.append_assoc] at h
    have hprev : (before fs e 1).left.base ≤ (before fs e 1).right.base := ih h.start (by omega)
    have hleft := next_base fs e f .left
    have hright := next_base fs e f .right
    exact (hleft.trans_le hprev).trans hright.ge

end Order

/-- **The left base stays on the left**, or meets the right one, at every window of every frame. -/
theorem lane_ordered {fs pre post : List Frame} {f : Frame} (h : Followed fs)
    (heq : fs = pre ++ f :: post) : InOrder pre f := by
  rw [heq] at h
  have hstart := h.start
  have hle := hstart.le (show 11 ≤ 12 by omega)
  refine ⟨?_, fun i hi => hstart.le hi, fun i hi => hstart.apart hi, ?_, ?_⟩
  · rintro rfl
    exact hstart.first
  · rw [divisor_eq]
    omega
  · unfold Members.distance
    rw [divisor_eq]
    split
    · simp only [true_iff]
      omega
    · simp only [reduceCtorEq, false_iff]
      omega

/-! ### One line for both bases -/

theorem merging_found : merging.Found := by
  obtain ⟨hl, hr⟩ := merging_zero
  obtain ⟨hleft, hright⟩ := before_nil_zero merging
  rw [hleft] at hl
  rw [hright] at hr
  unfold Frame.Found
  omega

theorem merging_followed : Followed [merging] := by
  refine ⟨?_, ?_, ?_⟩
  · intro f hf
    obtain rfl := Option.mem_some.mp hf
    exact merging_found
  · intro pre f post heq i _
    obtain ⟨rfl, rfl⟩ := head_of_singleton heq
    exact ⟨merging_inside .left i, merging_inside .right i⟩
  · intro pre f post heq i _ hoff
    obtain ⟨rfl, rfl⟩ := head_of_singleton heq
    exact hoff.2.1 ((merging_counted .right i).mpr ((merging_counted .left i).mp hoff.1))

/-- The bases of the frame `merging` are in order, as they meet. -/
theorem lane_ordered_merging : InOrder [] merging := lane_ordered merging_followed rfl

/-- **The bases meet**: the first frame finds them at 600 and 700 and all windows lie in the
picture, but from the second window on both stand on the line, and the distance is a division by
zero. -/
theorem lane_lost : merging.Found ∧ (∀ h i, ((before [] merging i).side h).Inside) ∧
    ¬ (before [] merging 1).left.base < (before [] merging 1).right.base ∧
    (after [merging]).divisor = 0 ∧ (after [merging]).distance = none := by
  have hsame : ∀ i, (before [] merging (i + 1)).left.base =
      (before [] merging (i + 1)).right.base :=
    fun i => (merging_succ .left i).trans (merging_succ .right i).symm
  have hdivisor : (after [merging]).divisor = 0 := by
    have heq := divisor_eq [] merging
    rw [List.nil_append, hsame, sub_self] at heq
    exact heq
  refine ⟨merging_found, merging_inside, ?_, hdivisor, ?_⟩
  · rw [hsame]
    exact lt_irrefl _
  · unfold Members.distance
    rw [if_pos hdivisor]

end Vehicle.Recovery.Camera
