import Mathlib.Algebra.BigOperators.Group.List.Basic
import Vehicle.Numeric.Mean
import Vehicle.Recovery.Camera

/-!
# recovery: what a window does

The two sides of a window do not look at each other, so a window is a function of one side
(`Side.window`), and what it does to the base is a quotient of the columns of the pixels counted
(`window_of_ne`). The sums start at -1 and are reset to 0 behind the first window that counts a
pixel, so this window alone is off (`recentres_iff`).
-/

namespace Vehicle.Recovery.Camera

open Vehicle.Numeric

/-! ### One side of a window -/

/-- Left or right. -/
inductive Hand
  | left | right
  deriving DecidableEq, Repr

/-- One side of the members. -/
def Members.side (m : Members) : Hand → Side
  | .left => m.left
  | .right => m.right

/-- The scan of window `i` on one side. -/
def Side.scanWindow (g : Picture) (s : Side) (i : ℕ) : Side := (windowRows i).foldl (.scanRow g) s

/-- Window `i` on one side. -/
def Side.window (g : Picture) (s : Side) (i : ℕ) : Side := ((s.scanWindow g i).recentre).record i

/-- The columns of the pixels of window `i` that are not zero. -/
def Side.pixels (g : Picture) (s : Side) (i : ℕ) : List ℤ :=
  (windowRows i).flatMap fun row => (columns s.base).filter fun col => g row col != 0

section Side

variable {g : Picture} {m : Members} {s : Side} {i : ℕ}

theorem mem_upTo {lo x : ℤ} {n : ℕ} : x ∈ upTo lo n ↔ lo ≤ x ∧ x < lo + n := by
  simp only [upTo, List.mem_map, List.mem_range]
  constructor
  · rintro ⟨k, hk, rfl⟩
    omega
  · rintro ⟨h1, h2⟩
    exact ⟨(x - lo).toNat, by omega, by omega⟩

/-- The three bytes of a pixel are its grey value. -/
theorem nonzero_eq (g : Picture) (row col : ℤ) : nonzero g row col = (g row col != 0) := by
  have h0 : col * 3 / 3 = col := by omega
  have h1 : (col * 3 + 1) / 3 = col := by omega
  have h2 : (col * 3 + 2) / 3 = col := by omega
  simp [nonzero, toBGR, h0, h1, h2]

/-- The members after a scan of some columns. -/
theorem scan_foldl (row : ℤ) (cols : List ℤ) (s : Side) :
    cols.foldl (.scan g row) s =
      { s with
        xPositon := s.xPositon + (cols.filter fun col => g row col != 0).sum
        num := s.num + (cols.filter fun col => g row col != 0).length } := by
  induction cols generalizing s with
  | nil => simp
  | cons col cols ih =>
    rw [List.foldl_cons, ih]
    by_cases h : g row col = 0
    · simp [Side.scan, nonzero_eq, h]
    · simp [Side.scan, nonzero_eq, h, add_assoc, add_comm (1 : ℤ)]

/-- **A scan adds up the columns of the pixels, and counts them.** -/
theorem scanWindow_eq (s : Side) (i : ℕ) :
    s.scanWindow g i =
      { s with
        xPositon := s.xPositon + (s.pixels g i).sum
        num := s.num + (s.pixels g i).length } := by
  unfold Side.scanWindow Side.pixels
  induction windowRows i generalizing s with
  | nil => simp
  | cons row rows ih =>
    rw [List.foldl_cons, Side.scanRow, scan_foldl, ih]
    simp [add_assoc]

theorem scanWindow_side (h : Hand) :
    (m.scanWindow g i).side h = (m.side h).scanWindow g i := by
  unfold Members.scanWindow Side.scanWindow
  induction windowRows i generalizing m with
  | nil => rfl
  | cons row rows ih =>
    rw [List.foldl_cons, List.foldl_cons, ih]
    cases h <;> rfl

/-- **The sides of a window do not look at each other.** -/
theorem window_side (h : Hand) : (m.window g i).side h = (m.side h).window g i := by
  unfold Side.window
  rw [← scanWindow_side]
  cases h <;> rfl

theorem windows_succ : m.windows g (i + 1) = (m.windows g i).window g i := by
  simp [Members.windows, List.range_succ]

/-- What is kept of the base changes neither the base nor the sums. -/
theorem record_eq : (s.record i).base = s.base ∧ (s.record i).xPositon = s.xPositon ∧
    (s.record i).num = s.num := by
  unfold Side.record Side.control
  split
  · exact ⟨rfl, rfl, rfl⟩
  · split
    · exact ⟨rfl, rfl, rfl⟩
    · split
      · exact ⟨rfl, rfl, rfl⟩
      · split <;> exact ⟨rfl, rfl, rfl⟩

/-- **A window without pixels** leaves the base and the sums as they are. -/
theorem window_of_nil (hnum : s.num = 0) (h : s.pixels g i = []) :
    (s.window g i).base = s.base ∧ (s.window g i).xPositon = s.xPositon ∧
      (s.window g i).num = 0 := by
  obtain ⟨hb, hx, hn⟩ := record_eq (s := (s.scanWindow g i).recentre) (i := i)
  unfold Side.window
  rw [hb, hx, hn, scanWindow_eq, h]
  simp [Side.recentre, hnum]

/-- **A window with pixels** moves the base to their mean, and resets the sums. -/
theorem window_of_ne (hnum : s.num = 0) (h : s.pixels g i ≠ []) :
    (s.window g i).base =
        (s.xPositon + (s.pixels g i).sum).tdiv (s.pixels g i).length ∧
      (s.window g i).xPositon = 0 ∧ (s.window g i).num = 0 := by
  have hpos : 0 < (s.pixels g i).length := List.length_pos_iff.mpr h
  obtain ⟨hb, hx, hn⟩ := record_eq (s := (s.scanWindow g i).recentre) (i := i)
  unfold Side.window
  rw [hb, hx, hn, scanWindow_eq]
  simp [Side.recentre, hnum, hpos]

end Side

/-! ### From window to window -/

/-- A window before the frame has counted a pixel on this side. -/
def CountedIn (h : Hand) (fs : List Frame) : Prop :=
  ∃ pre f post, fs = pre ++ f :: post ∧
    ∃ j < 12, ((before pre f j).side h).pixels f.thresh j ≠ []

/-- **A window before window `i` has counted a pixel on this side**, in the frame or in an earlier
one. -/
def Counted (h : Hand) (fs : List Frame) (f : Frame) (i : ℕ) : Prop :=
  CountedIn h fs ∨ ∃ j < i, ((before fs f j).side h).pixels f.thresh j ≠ []

/-- The sums of a side at the start of a window, where `c` says that a pixel has been counted
before: they begin with the column -1. -/
structure Side.Ready (s : Side) (c : Prop) : Prop where
  num : s.num = 0
  counted : c → s.xPositon = 0
  fresh : ¬ c → s.xPositon = -1

section Ready

variable {g : Picture} {s : Side} {c d : Prop} {fs : List Frame} {f : Frame} {i : ℕ} {h : Hand}

theorem Side.Ready.congr (hs : s.Ready c) (hcd : c ↔ d) : s.Ready d :=
  ⟨hs.num, fun hd => hs.counted (hcd.mpr hd), fun hd => hs.fresh fun hc => hd (hcd.mp hc)⟩

theorem Side.Ready.window (hs : s.Ready c) : (s.window g i).Ready (c ∨ s.pixels g i ≠ []) := by
  by_cases hp : s.pixels g i = []
  · obtain ⟨-, hx, hn⟩ := window_of_nil hs.num hp
    refine ⟨hn, ?_, ?_⟩
    · rintro (hc | hne)
      · rw [hx, hs.counted hc]
      · exact absurd hp hne
    · intro hno
      rw [hx, hs.fresh fun hc => hno (Or.inl hc)]
  · obtain ⟨-, hx, hn⟩ := window_of_ne hs.num hp
    exact ⟨hn, fun _ => hx, fun hno => absurd (Or.inr hp) hno⟩

theorem Side.Ready.place (hs : s.Ready c) (base : ℤ) : (s.place base).Ready c :=
  ⟨hs.num, hs.counted, hs.fresh⟩

/-- How a frame begins: every side is placed somewhere. -/
theorem locate_side (m : Members) (f : Frame) (h : Hand) :
    ∃ base, (m.locate f).side h = (m.side h).place base := by
  unfold Members.locate
  split
  · cases h
    · exact ⟨_, rfl⟩
    · exact ⟨_, rfl⟩
  · cases h
    · exact ⟨_, rfl⟩
    · exact ⟨_, rfl⟩

theorem locate_ready {m : Members} (hm : (m.side h).Ready c) : ((m.locate f).side h).Ready c := by
  obtain ⟨base, hb⟩ := locate_side m f h
  rw [hb]
  exact hm.place base

theorem after_snoc : after (fs ++ [f]) = before fs f 12 := by
  simp [after, before, Members.run]

theorem before_zero : before fs f 0 = (after fs).locate f := by
  simp [before, Members.windows]

theorem before_succ : before fs f (i + 1) = (before fs f i).window f.thresh i :=
  windows_succ

/-- The windows of a frame count for the frames behind it. -/
theorem countedIn_snoc : CountedIn h (fs ++ [f]) ↔ Counted h fs f 12 := by
  constructor
  · rintro ⟨pre, e, post, heq, j, hj, hne⟩
    induction post using List.reverseRecOn with
    | nil =>
      obtain ⟨rfl, he⟩ := List.append_inj' heq rfl
      obtain rfl := (List.cons_eq_cons.mp he).1
      exact Or.inr ⟨j, hj, hne⟩
    | append_singleton post e' _ =>
      rw [← List.cons_append, ← List.append_assoc] at heq
      obtain ⟨rfl, -⟩ := List.append_inj' heq rfl
      exact Or.inl ⟨pre, e, post, rfl, j, hj, hne⟩
  · rintro (⟨pre, e, post, rfl, j, hj, hne⟩ | ⟨j, hj, hne⟩)
    · exact ⟨pre, e, post ++ [f], by simp, j, hj, hne⟩
    · exact ⟨fs, f, [], by simp, j, hj, hne⟩

theorem not_countedIn_nil : ¬ CountedIn h [] := by
  rintro ⟨pre, f, post, heq, -⟩
  simp at heq

theorem counted_succ : Counted h fs f (i + 1) ↔
    Counted h fs f i ∨ ((before fs f i).side h).pixels f.thresh i ≠ [] := by
  constructor
  · rintro (hin | ⟨j, hj, hne⟩)
    · exact Or.inl (Or.inl hin)
    · rcases Nat.lt_succ_iff_lt_or_eq.mp hj with hlt | rfl
      · exact Or.inl (Or.inr ⟨j, hlt, hne⟩)
      · exact Or.inr hne
  · rintro ((hin | ⟨j, hj, hne⟩) | hne)
    · exact Or.inl hin
    · exact Or.inr ⟨j, by omega, hne⟩
    · exact Or.inr ⟨i, by omega, hne⟩

/-- The sums at the start of a window, from those at the start of the frame. -/
theorem ready_windows (hfs : ((after fs).side h).Ready (CountedIn h fs)) (i : ℕ) :
    ((before fs f i).side h).Ready (Counted h fs f i) := by
  induction i with
  | zero =>
    rw [before_zero]
    refine (locate_ready hfs).congr ?_
    simp [Counted]
  | succ i ih =>
    rw [before_succ, window_side]
    exact ih.window.congr counted_succ.symm

/-- **The sums at the start of every window** of every frame. -/
theorem ready_before (h : Hand) (fs : List Frame) (f : Frame) (i : ℕ) :
    ((before fs f i).side h).Ready (Counted h fs f i) := by
  have hafter : ((after fs).side h).Ready (CountedIn h fs) := by
    induction fs using List.reverseRecOn with
    | nil => cases h <;> exact ⟨rfl, fun hc => absurd hc not_countedIn_nil, fun _ => rfl⟩
    | append_singleton fs f ih =>
      rw [after_snoc]
      exact (ready_windows ih 12).congr countedIn_snoc.symm
  exact ready_windows hafter i

end Ready

/-! ### Recentring -/

/-- **The window is recentred on the mean of its own pixels**: the new base is the integer part of
the mean of their columns, and the base is unchanged where there are none. -/
structure Recentres (g : Picture) (i : ℕ) (s s' : Side) : Prop where
  mean : s.pixels g i ≠ [] → s'.base = (s.pixels g i).sum.tdiv (s.pixels g i).length
  move : s.pixels g i ≠ [] → -75 ≤ s'.base - s.base ∧ s'.base - s.base ≤ 74
  stay : s.pixels g i = [] → s'.base = s.base

/-- The window lies in the picture. -/
def Side.Inside (s : Side) : Prop := 75 ≤ s.base ∧ s.base ≤ 1205

section Recentres

variable {g : Picture} {s : Side} {c : Prop} {i : ℕ}

theorem mem_pixels {x : ℤ} (h : x ∈ s.pixels g i) :
    s.base - 75 ≤ x ∧ x ≤ s.base + 74 := by
  simp only [Side.pixels, columns, List.mem_flatMap, List.mem_filter, mem_upTo] at h
  obtain ⟨-, -, hx, -⟩ := h
  omega

/-- A window whose sums begin with 0. -/
theorem recentres_of_counted (hs : s.Ready c) (hc : c) (hin : s.Inside) :
    Recentres g i s (s.window g i) := by
  refine ⟨?_, ?_, ?_⟩
  · intro hne
    rw [(window_of_ne hs.num hne).1, hs.counted hc, zero_add]
  · intro hne
    have hlo := hin.1
    have hmem := tdiv_mem (by omega) hne fun x hx => mem_pixels hx
    rw [(window_of_ne hs.num hne).1, hs.counted hc, zero_add]
    omega
  · intro hnil
    exact (window_of_nil hs.num hnil).1

/-- Sums that begin with -1 are noticed where the mean is an integer. -/
theorem tdiv_pred_eq_iff {n : ℤ} {m : ℕ} (hn : 0 ≤ n) (hm : 0 < m) :
    (-1 + n).tdiv m = n.tdiv m ↔ ¬ (m : ℤ) ∣ n ∨ n = 0 ∧ 2 ≤ m := by
  have hm' : 0 < (m : ℤ) := by exact_mod_cast hm
  rcases hn.eq_or_lt with rfl | hpos
  · rw [Int.zero_tdiv, add_zero, Int.neg_tdiv, neg_eq_zero]
    rw [Int.tdiv_eq_ediv_of_nonneg (by omega)]
    by_cases h2 : 2 ≤ m
    · have : (1 : ℤ) / m = 0 := Int.ediv_eq_zero_of_lt (by omega) (by omega)
      simp [this, h2]
    · obtain rfl : m = 1 := by omega
      simp
  · rw [Int.tdiv_eq_ediv_of_nonneg (by omega), Int.tdiv_eq_ediv_of_nonneg hn,
      show -1 + n = n - 1 by ring, ediv_pred_eq_iff hm']
    have : n ≠ 0 := hpos.ne'
    simp [this]

/-- **When a window is recentred**, for sums that begin as `Ready` says. -/
theorem Side.Ready.recentres (hs : s.Ready c) (hin : s.Inside) :
    Recentres g i s (s.window g i) ↔ s.pixels g i = [] ∨ c ∨
      ¬ ((s.pixels g i).length : ℤ) ∣ (s.pixels g i).sum ∨
        (s.pixels g i).sum = 0 ∧ 2 ≤ (s.pixels g i).length := by
  by_cases hnil : s.pixels g i = []
  · have hstay := (window_of_nil hs.num hnil).1
    simp only [hnil, true_or, iff_true]
    exact ⟨fun hne => absurd hnil hne, fun hne => absurd hnil hne, fun _ => hstay⟩
  · by_cases hc : c
    · simp only [hc, true_or, or_true, iff_true]
      exact recentres_of_counted hs hc hin
    · simp only [hnil, hc, false_or]
      have hlo := hin.1
      have hpos : 0 < (s.pixels g i).length := List.length_pos_iff.mpr hnil
      have hsum : 0 ≤ (s.pixels g i).sum :=
        List.sum_nonneg fun x hx => by have := mem_pixels hx; omega
      rw [← tdiv_pred_eq_iff hsum hpos]
      have hbase : (s.window g i).base =
          (-1 + (s.pixels g i).sum).tdiv (s.pixels g i).length := by
        rw [(window_of_ne hs.num hnil).1, hs.fresh hc]
      rw [← hbase]
      constructor
      · intro h
        exact h.mean hnil
      · intro h
        refine ⟨fun _ => h, ?_, fun hno => absurd hno hnil⟩
        intro hne
        have hmem := tdiv_mem (by omega) hne fun x hx => mem_pixels hx
        rw [h]
        omega

end Recentres

/-- **Which windows are recentred on the mean of their own pixels**: all but the first one of a side
that counts a pixel, if the mean is an integer there. -/
theorem recentres_iff (fs : List Frame) (f : Frame) (i : ℕ) (h : Hand)
    (hin : ((before fs f i).side h).Inside) :
    Recentres f.thresh i ((before fs f i).side h) ((before fs f (i + 1)).side h) ↔
      ((before fs f i).side h).pixels f.thresh i = [] ∨ Counted h fs f i ∨
        ¬ ((((before fs f i).side h).pixels f.thresh i).length : ℤ) ∣
            (((before fs f i).side h).pixels f.thresh i).sum ∨
          (((before fs f i).side h).pixels f.thresh i).sum = 0 ∧
            2 ≤ (((before fs f i).side h).pixels f.thresh i).length := by
  rw [before_succ, window_side]
  exact (ready_before h fs f i).recentres hin

/-! ### The search for a base -/

section Search

variable {disp : Picture}

/-- A pixel of the search: it stays where it is, or goes up to this one. -/
theorem find_cases (disp : Picture) (p found : ℤ × ℤ) :
    (find disp p.1 found p.2 = found ∨ find disp p.1 found p.2 = p ∧ disp p.1 p.2 = 255) ∧
      (find disp p.1 found p.2).1 ≤ found.1 ∧
      (disp p.1 p.2 = 255 → (find disp p.1 found p.2).1 ≤ p.1) := by
  unfold find
  split
  · rename_i h255
    split
    · rename_i hlt
      exact ⟨Or.inr ⟨rfl, h255⟩, hlt.le, fun _ => le_rfl⟩
    · rename_i hge
      exact ⟨Or.inl rfl, le_rfl, fun _ => not_lt.mp hge⟩
  · rename_i hno
    exact ⟨Or.inl rfl, le_rfl, fun h => absurd h hno⟩

/-- What the search finds in a list of pixels: it stays where it is, or goes up to one of them, as
far as there are any. -/
theorem foldl_find (disp : Picture) (ps : List (ℤ × ℤ)) (found : ℤ × ℤ) :
    (ps.foldl (fun found p => find disp p.1 found p.2) found = found ∨
      ps.foldl (fun found p => find disp p.1 found p.2) found ∈
        ps.filter fun p => disp p.1 p.2 = 255) ∧
    (ps.foldl (fun found p => find disp p.1 found p.2) found).1 ≤ found.1 ∧
    ∀ p ∈ ps, disp p.1 p.2 = 255 →
      (ps.foldl (fun found p => find disp p.1 found p.2) found).1 ≤ p.1 := by
  induction ps generalizing found with
  | nil => simp
  | cons p ps ih =>
    rw [List.foldl_cons]
    obtain ⟨hcases, hle, hall⟩ := ih (find disp p.1 found p.2)
    obtain ⟨hp, hple, hpall⟩ := find_cases disp p found
    refine ⟨?_, hle.trans hple, ?_⟩
    · rcases hcases with heq | hmem
      · rw [heq]
        rcases hp with hp | ⟨hp, h255⟩
        · exact Or.inl hp
        · right
          rw [hp]
          simp [h255]
      · right
        rw [List.mem_filter] at hmem ⊢
        exact ⟨List.mem_cons_of_mem _ hmem.1, hmem.2⟩
    · intro q hq h255
      rcases List.mem_cons.mp hq with rfl | hq
      · exact hle.trans (hpall h255)
      · exact hall q hq h255

/-- **The search** stays where it is, or finds a pixel, and there is none above what it finds. -/
theorem search_cases (disp : Picture) (lo : ℤ) (n : ℕ) (thresh base : ℤ) :
    (search disp lo n thresh base = (thresh, base) ∨
      ∃ p, search disp lo n thresh base = p ∧ (0 ≤ p.1 ∧ p.1 < 720) ∧
        (lo ≤ p.2 ∧ p.2 < lo + n) ∧ disp p.1 p.2 = 255) ∧
    ∀ row col, 0 ≤ row ∧ row < 720 → lo ≤ col ∧ col < lo + n → disp row col = 255 →
      (search disp lo n thresh base).1 ≤ row := by
  have hsearch : search disp lo n thresh base =
      ((upTo 0 720).flatMap fun row => (upTo lo n).map fun col => (row, col)).foldl
        (fun found p => find disp p.1 found p.2) (thresh, base) := by
    simp [search, List.foldl_flatMap, List.foldl_map]
  have hpixels : ∀ p : ℤ × ℤ,
      p ∈ ((upTo 0 720).flatMap fun row => (upTo lo n).map fun col => (row, col)) ↔
        (0 ≤ p.1 ∧ p.1 < 720) ∧ lo ≤ p.2 ∧ p.2 < lo + n := by
    rintro ⟨row, col⟩
    simp [mem_upTo]
  obtain ⟨hcases, -, hall⟩ := foldl_find disp
    ((upTo 0 720).flatMap fun row => (upTo lo n).map fun col => (row, col)) (thresh, base)
  rw [hsearch]
  refine ⟨?_, ?_⟩
  · rcases hcases with heq | hfound
    · exact Or.inl heq
    · obtain ⟨hin, h255⟩ := List.mem_filter.mp hfound
      obtain ⟨hrow, hcol⟩ := (hpixels _).mp hin
      exact Or.inr ⟨_, rfl, hrow, hcol, by simpa using h255⟩
  · intro row col hrow hcol h255
    exact hall (row, col) ((hpixels (row, col)).mpr ⟨hrow, hcol⟩) h255

/-- **What the search finds**, where there is a pixel to find. -/
theorem search_found (lo : ℤ) (n : ℕ) (thresh base : ℤ) {row col : ℤ}
    (hrow : 0 ≤ row ∧ row < 720) (hthresh : row < thresh) (hcol : lo ≤ col ∧ col < lo + n)
    (h : disp row col = 255) :
    disp (search disp lo n thresh base).1 (search disp lo n thresh base).2 = 255 ∧
      lo ≤ (search disp lo n thresh base).2 ∧ (search disp lo n thresh base).2 < lo + n := by
  obtain ⟨hcases, hall⟩ := search_cases disp lo n thresh base
  have hle := hall row col hrow hcol h
  rcases hcases with heq | ⟨p, heq, -, hcol', h255⟩
  · -- it would have stayed below the pixel
    rw [heq] at hle
    exact absurd hle (not_le.mpr hthresh)
  · rw [heq]
    exact ⟨h255, hcol'⟩

/-- A half without a pixel leaves its base where it was. -/
theorem search_unfound {lo thresh base : ℤ} {n : ℕ}
    (h : ∀ row col, 0 ≤ row ∧ row < 720 → lo ≤ col ∧ col < lo + n →
      disp row col ≠ 255) :
    search disp lo n thresh base = (thresh, base) := by
  obtain ⟨heq | ⟨p, -, hrow, hcol, h255⟩, -⟩ := search_cases disp lo n thresh base
  · exact heq
  · exact absurd h255 (h p.1 p.2 hrow hcol)

end Search

/-! ### A line in both windows -/

/-- A first frame: the bases are found at 600 and 700, and the only line stands between them. -/
def merging : Frame where
  thresh _ col := if col = 650 then 255 else 0
  disp row col := if row = 0 ∧ (col = 600 ∨ col = 700) then 255 else 0

theorem before_nil_zero (f : Frame) :
    (before [] f 0).left.base = (search f.disp 0 640 720 10000).2 ∧
      (before [] f 0).right.base = (search f.disp 640 640 720 10000).2 := by
  have hnew : after [] = Members.new := rfl
  rw [before_zero, hnew]
  simp [Members.locate, Members.new, Side.new, Side.place]

theorem merging_zero :
    (before [] merging 0).left.base = 600 ∧ (before [] merging 0).right.base = 700 := by
  obtain ⟨hl, hr⟩ := before_nil_zero merging
  rw [hl, hr]
  have hpixel : ∀ row col : ℤ, merging.disp row col = 255 → col = 600 ∨ col = 700 := by
    intro row col h
    simp only [merging] at h
    split at h
    · rename_i hpos
      exact hpos.2
    · cases h
  constructor
  · obtain ⟨h255, h1, h2⟩ := search_found 0 640 720 10000 (by decide) (by decide) (by decide)
      (show merging.disp 0 600 = 255 from rfl)
    have := hpixel _ _ h255
    omega
  · obtain ⟨h255, h1, h2⟩ := search_found 640 640 720 10000 (by decide) (by decide) (by decide)
      (show merging.disp 0 700 = 255 from rfl)
    have := hpixel _ _ h255
    omega

/-- A window that contains the line counts it in each of its rows. -/
theorem merging_pixels {s : Side} (i : ℕ) (h : 575 < s.base ∧ s.base ≤ 725) :
    s.pixels merging.thresh i = List.replicate 60 650 := by
  have hrow : ∀ row,
      (columns s.base).filter (fun col => merging.thresh row col != 0) = [650] := by
    intro row
    have hfilter : (columns s.base).filter (fun col => merging.thresh row col != 0) =
        (columns s.base).filter (fun col => col == 650) := by
      refine List.filter_congr fun col _ => ?_
      by_cases hcol : col = 650
      · simp [merging, hcol]
      · simp [merging, hcol]
    have hmem : 650 ∈ columns s.base := by
      rw [columns, mem_upTo]
      omega
    have hnodup : (columns s.base).Nodup := by
      refine List.Nodup.map ?_ List.nodup_range
      intro a b hab
      simpa using hab
    rw [hfilter, List.filter_beq, List.count_eq_one_of_mem hnodup hmem]
    rfl
  unfold Side.pixels
  simp only [hrow, ← List.map_eq_flatMap, List.map_const']
  simp [windowRows, upTo]

/-- The base after a window that contains the line. -/
theorem merging_window {s : Side} {c : Prop} (i : ℕ) (hs : s.Ready c)
    (h : 575 < s.base ∧ s.base ≤ 725) :
    (s.window merging.thresh i).base = (s.xPositon + 39000).tdiv 60 := by
  have hne : s.pixels merging.thresh i ≠ [] := by
    rw [merging_pixels i h]
    simp
  rw [(window_of_ne hs.num hne).1, merging_pixels i h, List.sum_replicate, List.length_replicate]
  rfl

theorem merging_start (h : Hand) :
    600 ≤ ((before [] merging 0).side h).base ∧
      ((before [] merging 0).side h).base ≤ 700 := by
  obtain ⟨hl, hr⟩ := merging_zero
  cases h
  · show 600 ≤ (before [] merging 0).left.base ∧ (before [] merging 0).left.base ≤ 700
    omega
  · show 600 ≤ (before [] merging 0).right.base ∧ (before [] merging 0).right.base ≤ 700
    omega

theorem merging_counted (h : Hand) (i : ℕ) : Counted h [] merging i ↔ 0 < i := by
  constructor
  · rintro (hin | ⟨j, hj, -⟩)
    · exact absurd hin not_countedIn_nil
    · omega
  · intro hi
    have hstart := merging_start h
    refine Or.inr ⟨0, hi, ?_⟩
    rw [merging_pixels 0 (by omega)]
    simp

/-- **Both bases come to the line**: to the column before it in the first window, then to it. -/
theorem merging_succ (h : Hand) (i : ℕ) :
    ((before [] merging (i + 1)).side h).base = if i = 0 then 649 else 650 := by
  have hready := ready_before h [] merging
  have hstart := merging_start h
  induction i with
  | zero =>
    have hno : ¬ Counted h [] merging 0 := fun hc =>
      absurd ((merging_counted h 0).mp hc) (by omega)
    rw [before_succ, window_side, merging_window 0 (hready 0) (by omega), (hready 0).fresh hno]
    rfl
  | succ i ih =>
    have hcounted : Counted h [] merging (i + 1) := (merging_counted h _).mpr (by omega)
    have hbase : 575 < ((before [] merging (i + 1)).side h).base ∧
        ((before [] merging (i + 1)).side h).base ≤ 725 := by
      rw [ih]
      split <;> omega
    rw [before_succ, window_side, merging_window (i + 1) (hready (i + 1)) hbase,
      (hready (i + 1)).counted hcounted]
    rfl

/-- All windows lie in the picture. -/
theorem merging_inside (h : Hand) (i : ℕ) : ((before [] merging i).side h).Inside := by
  unfold Side.Inside
  cases i with
  | zero =>
    have := merging_start h
    omega
  | succ i =>
    rw [merging_succ]
    split <;> omega

/-- The second window is recentred. -/
theorem recentres_merging :
    Recentres merging.thresh 1 ((before [] merging 1).side .left)
      ((before [] merging 2).side .left) := by
  refine (recentres_iff [] merging 1 .left (merging_inside .left 1)).mpr (Or.inr (Or.inl ?_))
  exact (merging_counted .left 1).mpr (by omega)

/-- The first one is not: all its pixels stand in column 650, and the base comes to 649. -/
theorem first_window_off : (∀ h i, ((before [] merging i).side h).Inside) ∧
    ¬ Recentres merging.thresh 0 ((before [] merging 0).side .left)
      ((before [] merging 1).side .left) := by
  refine ⟨merging_inside, ?_⟩
  intro hrec
  have hstart := merging_start .left
  have hpixels := merging_pixels (s := (before [] merging 0).side .left) 0 (by omega)
  have hmean := hrec.mean (by rw [hpixels]; simp)
  rw [hpixels, merging_succ] at hmean
  revert hmean
  decide

end Vehicle.Recovery.Camera
