import Mathlib.Algebra.Order.BigOperators.Group.List
import Mathlib.Algebra.Order.Field.Basic
import Mathlib.Algebra.Order.Ring.Defs
import Mathlib.Data.List.Induction
import Mathlib.Tactic.FieldSimp
import Mathlib.Tactic.Linarith
import Mathlib.Tactic.Ring

/-!
# Means of lists

The mean of a list of numbers as the pair of its sum and its length, so that means are compared by
cross-multiplication and no division is needed. Two lists that share a stretch, with everything else
of the first below and everything else of the second above, have their means in this order
(`mean_le_overlap`); and so have the integer quotients, the exact ones (`ediv_le_ediv_of_mean`) and
those of sums that are one short (`ediv_pred_le_of_mean`).

The running mean halves the sum of the mean so far and the new number, and starts anew from zero; it
stays within the numbers it has been given (`foldl_runningMean`).

A quotient is as exact as its dividend and its divisor are (`abs_div_sub_div_le`).
-/

namespace Vehicle.Numeric

section OrderedRing

variable {R : Type*} [CommRing R] [LinearOrder R]

/-- The mean of `xs` is at most the mean of `ys`. -/
def MeanLe (xs ys : List R) : Prop := xs.sum * ys.length ≤ ys.sum * xs.length

theorem MeanLe.refl (xs : List R) : MeanLe xs xs := le_refl _

/-- The mean depends on the numbers, not on their order. -/
theorem MeanLe.perm {xs xs' ys ys' : List R} (h : MeanLe xs ys) (hx : xs.Perm xs')
    (hy : ys.Perm ys') : MeanLe xs' ys' := by
  unfold MeanLe at h ⊢
  rw [← hx.sum_eq, ← hy.sum_eq, ← hx.length_eq, ← hy.length_eq]
  exact h

variable [IsStrictOrderedRing R]

/-- A bound below a list is below its mean. -/
theorem mul_length_le_sum {x : R} {ys : List R} (h : ∀ y ∈ ys, x ≤ y) :
    x * ys.length ≤ ys.sum := by
  have := ys.card_nsmul_le_sum x h
  rwa [nsmul_eq_mul, mul_comm] at this

/-- A bound above a list is above its mean. -/
theorem sum_le_mul_length {x : R} {ys : List R} (h : ∀ y ∈ ys, y ≤ x) :
    ys.sum ≤ x * ys.length := by
  have := ys.sum_le_card_nsmul x h
  rwa [nsmul_eq_mul, mul_comm] at this

/-- Lists that lie apart. -/
theorem MeanLe.of_forall {xs ys : List R} (h : ∀ x ∈ xs, ∀ y ∈ ys, x ≤ y) : MeanLe xs ys := by
  unfold MeanLe
  induction xs with
  | nil => simp
  | cons x xs ih =>
    have hx : x * ys.length ≤ ys.sum := mul_length_le_sum (h x (by simp))
    have hxs := ih fun z hz => h z (by simp [hz])
    rw [List.sum_cons, List.length_cons]
    push_cast
    linarith

/-- **Lists that share a stretch.** -/
theorem mean_le_overlap {a b c : List R} (ha : ∀ x ∈ a, ∀ y ∈ c ++ b, x ≤ y)
    (hb : ∀ x ∈ c, ∀ y ∈ b, x ≤ y) : MeanLe (a ++ c) (c ++ b) := by
  have h1 := MeanLe.of_forall ha
  have h2 := MeanLe.of_forall hb
  unfold MeanLe at h1 h2 ⊢
  simp only [List.sum_append, List.length_append, Nat.cast_add] at h1 h2 ⊢
  linarith

end OrderedRing

/-! ### Integer quotients -/

section Quotient

variable {xs ys : List ℤ}

/-- A quotient lies between the bounds of the list. -/
theorem tdiv_mem {lo hi : ℤ} (hlo : 0 ≤ lo) (hx : xs ≠ []) (h : ∀ x ∈ xs, lo ≤ x ∧ x ≤ hi) :
    lo ≤ xs.sum.tdiv xs.length ∧ xs.sum.tdiv xs.length ≤ hi := by
  have hpos : 0 < (xs.length : ℤ) := by exact_mod_cast List.length_pos_iff.mpr hx
  have h1 := mul_length_le_sum fun x hx => (h x hx).1
  have h2 := sum_le_mul_length fun x hx => (h x hx).2
  have hsum : 0 ≤ xs.sum := le_trans (mul_nonneg hlo hpos.le) h1
  rw [Int.tdiv_eq_ediv_of_nonneg hsum]
  exact ⟨(Int.le_ediv_iff_mul_le hpos).mpr h1, Int.ediv_le_of_le_mul hpos h2⟩

theorem ediv_le_ediv_of_mean (h : MeanLe xs ys) (hx : xs ≠ []) (hy : ys ≠ []) :
    xs.sum / xs.length ≤ ys.sum / ys.length := by
  have hxpos : 0 < (xs.length : ℤ) := by exact_mod_cast List.length_pos_iff.mpr hx
  have hypos : 0 < (ys.length : ℤ) := by exact_mod_cast List.length_pos_iff.mpr hy
  rw [Int.le_ediv_iff_mul_le hypos]
  have hq : xs.sum / xs.length * xs.length ≤ xs.sum := Int.ediv_mul_le _ hxpos.ne'
  refine le_of_mul_le_mul_right (a := (xs.length : ℤ)) ?_ hxpos
  calc xs.sum / xs.length * ys.length * xs.length
      = xs.sum / xs.length * xs.length * ys.length := by ring
    _ ≤ xs.sum * ys.length := mul_le_mul_of_nonneg_right hq hypos.le
    _ ≤ ys.sum * xs.length := h

/-- **Sums that are one short**: the quotients keep the order, as both drop over the same integer
where the sum is a multiple. -/
theorem ediv_pred_le_of_mean (h : MeanLe xs ys) (hx : xs ≠ []) (hy : ys ≠ []) :
    (xs.sum - 1) / xs.length ≤ (ys.sum - 1) / ys.length := by
  have hxpos : 0 < (xs.length : ℤ) := by exact_mod_cast List.length_pos_iff.mpr hx
  have hypos : 0 < (ys.length : ℤ) := by exact_mod_cast List.length_pos_iff.mpr hy
  rw [Int.le_ediv_iff_mul_le hypos]
  have hq : (xs.sum - 1) / xs.length * xs.length < xs.sum := by
    have := Int.ediv_mul_le (xs.sum - 1) hxpos.ne'
    omega
  have hlt : (xs.sum - 1) / xs.length * ys.length < ys.sum := by
    refine lt_of_mul_lt_mul_right (a := (xs.length : ℤ)) ?_ hxpos.le
    calc (xs.sum - 1) / xs.length * ys.length * xs.length
        = (xs.sum - 1) / xs.length * xs.length * ys.length := by ring
      _ < xs.sum * ys.length := mul_lt_mul_of_pos_right hq hypos
      _ ≤ ys.sum * xs.length := h
  omega

/-- Sums that start at -1, the upper one of which is still positive. -/
theorem tdiv_pred_le_of_mean (h : MeanLe xs ys) (hx : xs ≠ []) (hy : ys ≠ [])
    (hxs : 0 ≤ xs.sum) (hys : 0 < ys.sum) :
    (-1 + xs.sum).tdiv xs.length ≤ (-1 + ys.sum).tdiv ys.length := by
  have hxpos : 0 < (xs.length : ℤ) := by exact_mod_cast List.length_pos_iff.mpr hx
  rw [Int.tdiv_eq_ediv_of_nonneg (show 0 ≤ -1 + ys.sum by omega)]
  rcases hxs.eq_or_lt with h0 | hpos
  · calc (-1 + xs.sum).tdiv xs.length
        ≤ (0 : ℤ).tdiv xs.length := Int.tdiv_le_tdiv hxpos (by omega)
      _ = 0 := Int.zero_tdiv _
      _ ≤ (-1 + ys.sum) / ys.length := Int.ediv_nonneg (by omega) (by omega)
  · rw [Int.tdiv_eq_ediv_of_nonneg (show 0 ≤ -1 + xs.sum by omega), neg_add_eq_sub,
      neg_add_eq_sub]
    exact ediv_pred_le_of_mean h hx hy

/-- A quotient drops by at most one where the dividend does. -/
theorem tdiv_pred_mem {n m : ℤ} (hn : 0 ≤ n) (hm : 0 < m) :
    n.tdiv m - 1 ≤ (-1 + n).tdiv m ∧ (-1 + n).tdiv m ≤ n.tdiv m := by
  refine ⟨?_, Int.tdiv_le_tdiv hm (by omega)⟩
  rcases hn.eq_or_lt with rfl | hpos
  · rw [Int.zero_tdiv, add_zero, Int.neg_tdiv, Int.tdiv_eq_ediv_of_nonneg (by omega)]
    have : (1 : ℤ) / m ≤ 1 := Int.ediv_le_self m (by omega)
    omega
  · rw [Int.tdiv_eq_ediv_of_nonneg hn, Int.tdiv_eq_ediv_of_nonneg (by omega),
      Int.le_ediv_iff_mul_le hm]
    have : n / m * m ≤ n := Int.ediv_mul_le n hm.ne'
    rw [sub_mul]
    omega

/-- A quotient does not see that the dividend is one short, unless it is a multiple. -/
theorem ediv_pred_eq_iff {n m : ℤ} (hm : 0 < m) : (n - 1) / m = n / m ↔ ¬ m ∣ n := by
  have hle : (n - 1) / m ≤ n / m := Int.ediv_le_ediv hm (by omega)
  have hsum : n % m + n / m * m = n := Int.emod_add_ediv_mul n m
  have hnonneg := Int.emod_nonneg n hm.ne'
  calc (n - 1) / m = n / m ↔ n / m ≤ (n - 1) / m := by omega
    _ ↔ n / m * m ≤ n - 1 := Int.le_ediv_iff_mul_le hm
    _ ↔ n % m ≠ 0 := by omega
    _ ↔ ¬ m ∣ n := by rw [Int.dvd_iff_emod_eq_zero]

end Quotient

/-! ### Running means -/

/-- The running mean: half the sum of the mean so far and the new number; a mean of zero is none. -/
def runningMean (mean x : ℤ) : ℤ := if mean = 0 then x else (mean + x).tdiv 2

/-- A number between the smallest and the largest of a list. -/
structure Within (xs : List ℤ) (x : ℤ) : Prop where
  lower : ∃ lo ∈ xs, lo ≤ x
  upper : ∃ hi ∈ xs, x ≤ hi

section RunningMean

variable {xs ys : List ℤ} {x y z : ℤ}

theorem Within.mono (h : Within xs x) (hsub : xs ⊆ ys) : Within ys x := by
  obtain ⟨⟨lo, hlo, hle⟩, hi, hhi, hge⟩ := h
  exact ⟨⟨lo, hsub hlo, hle⟩, hi, hsub hhi, hge⟩

theorem Within.of_le (hx : Within xs x) (hy : Within xs y) (h1 : x ≤ z) (h2 : z ≤ y) :
    Within xs z := by
  obtain ⟨lo, hlo, hle⟩ := hx.lower
  obtain ⟨hi, hhi, hge⟩ := hy.upper
  exact ⟨⟨lo, hlo, hle.trans h1⟩, hi, hhi, h2.trans hge⟩

theorem Within.of_mem (h : x ∈ xs) : Within xs x := ⟨⟨x, h, le_rfl⟩, x, h, le_rfl⟩

/-- Half of a sum lies between the two numbers. -/
theorem tdiv_two_mem (h : x ≤ y) : x ≤ (x + y).tdiv 2 ∧ (x + y).tdiv 2 ≤ y := by
  have h1 : (x * 2).tdiv 2 ≤ (x + y).tdiv 2 := Int.tdiv_le_tdiv (by omega) (by omega)
  have h2 : (x + y).tdiv 2 ≤ (y * 2).tdiv 2 := Int.tdiv_le_tdiv (by omega) (by omega)
  rw [Int.mul_tdiv_cancel _ (by omega)] at h1 h2
  exact ⟨h1, h2⟩

/-- One number more. -/
theorem Within.runningMean (hx : Within xs x) (hy : Within xs y) : Within xs (runningMean x y) := by
  unfold Numeric.runningMean
  split
  · exact hy
  · rcases le_total x y with h | h
    · obtain ⟨h1, h2⟩ := tdiv_two_mem h
      exact hx.of_le hy h1 h2
    · obtain ⟨h1, h2⟩ := tdiv_two_mem h
      rw [add_comm] at h1 h2
      exact hy.of_le hx h1 h2

/-- **A running mean lies within the numbers it has been given.** -/
theorem foldl_runningMean (hne : xs ≠ []) : Within xs (xs.foldl Numeric.runningMean 0) := by
  induction xs using List.reverseRecOn with
  | nil => exact absurd rfl hne
  | append_singleton xs x ih =>
    rw [List.foldl_append, List.foldl_cons, List.foldl_nil]
    by_cases hxs : xs = []
    · subst hxs
      exact Within.of_mem (by simp [Numeric.runningMean])
    · have hmean := (ih hxs).mono (List.subset_append_left xs [x])
      exact hmean.runningMean (.of_mem (by simp))

end RunningMean

/-! ### Errors -/

/-- **The error of a quotient**, of what the dividend and the divisor are off. -/
theorem abs_div_sub_div_le {K : Type*} [Field K] [LinearOrder K] [IsStrictOrderedRing K]
    {a b x y d e : K} (ha : |a - x| ≤ d) (hb : |b - y| ≤ e) (hy : e < y) :
    |a / b - x / y| ≤ (d + |x / y| * e) / (y - e) := by
  have hlow := (abs_le.mp hb).1
  have hyb : y - e ≤ b := by linarith
  have hpos : 0 < y - e := by linarith
  have hb0 : 0 < b := hpos.trans_le hyb
  have hy0 : 0 < y := by linarith [(abs_nonneg _).trans hb]
  have hsplit : a / b - x / y = (a - x - x / y * (b - y)) / b := by
    field_simp
    ring
  have hnum : |a - x - x / y * (b - y)| ≤ d + |x / y| * e :=
    calc |a - x - x / y * (b - y)|
        ≤ |a - x| + |x / y * (b - y)| := abs_sub _ _
      _ = |a - x| + |x / y| * |b - y| := by rw [abs_mul]
      _ ≤ d + |x / y| * e := by gcongr
  rw [hsplit, abs_div, abs_of_pos hb0]
  exact div_le_div₀ ((abs_nonneg _).trans hnum) hnum hpos hyb

end Vehicle.Numeric
