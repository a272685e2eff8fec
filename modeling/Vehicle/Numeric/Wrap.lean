import Mathlib.Algebra.Order.Group.Unbundled.Int
import Mathlib.Tactic.Linarith

/-!
# Counts that wrap round

A count kept in a signed word is known up to multiples of the modulus `m`: the word holds its
balanced residue `x.bmod m`, after `x.bdiv m` turns. The distance of two counts is here computed
from their words, the smaller one taken from the larger one, and wrapped again. For counts less than
half the modulus apart this gives their distance up to sign: the sign is wrong exactly when the word
has wrapped round between them (`wrapDist_of_lt`).
-/

namespace Vehicle.Numeric

/-- The larger word less the smaller one, wrapped. -/
def wrapDist (m : ℕ) (x y : ℤ) : ℤ :=
  if y.bmod m > x.bmod m then (y.bmod m - x.bmod m).bmod m else (x.bmod m - y.bmod m).bmod m

section Wrap

variable {m : ℕ} {x y : ℤ}

theorem bmod_sub_bmod_bmod : (x.bmod m - y.bmod m).bmod m = (x - y).bmod m := by
  rw [Int.sub_bmod_bmod, Int.bmod_sub_bmod]

/-- The subtraction does not notice that the counts have been wrapped; the comparison does. -/
theorem wrapDist_eq :
    wrapDist m x y = if y.bmod m > x.bmod m then (y - x).bmod m else (x - y).bmod m := by
  unfold wrapDist
  rw [bmod_sub_bmod_bmod, bmod_sub_bmod_bmod]

theorem wrapDist_comm (m : ℕ) (x y : ℤ) : wrapDist m x y = wrapDist m y x := by
  unfold wrapDist
  rcases lt_trichotomy (x.bmod m) (y.bmod m) with h | h | h
  · rw [if_pos h, if_neg h.le.not_gt]
  · rw [h]
  · rw [if_neg h.le.not_gt, if_pos h]

/-- Counts less than half the modulus apart are wrapped equally often, or the larger one once
more. -/
theorem bdiv_cases (hle : x ≤ y) (hlt : (y - x) * 2 < m) :
    y.bdiv m = x.bdiv m ∨ y.bdiv m = x.bdiv m + 1 := by
  have hm : 0 < m := by omega
  have hx := Int.bdiv_add_bmod x m
  have hy := Int.bdiv_add_bmod y m
  have hxlo := Int.le_bmod (x := x) hm
  have hxhi := Int.bmod_lt (x := x) hm
  have hylo := Int.le_bmod (x := y) hm
  have hyhi := Int.bmod_lt (x := y) hm
  have hdiff : (m : ℤ) * (y.bdiv m - x.bdiv m) = y - x - (y.bmod m - x.bmod m) := by
    rw [mul_sub]
    omega
  have hlower : -1 < y.bdiv m - x.bdiv m := by
    refine lt_of_mul_lt_mul_left (a := (m : ℤ)) ?_ (by omega)
    omega
  have hupper : y.bdiv m - x.bdiv m < 2 := by
    refine lt_of_mul_lt_mul_left (a := (m : ℤ)) ?_ (by omega)
    omega
  omega

/-- **The distance of two counts, from their words**: it is right up to sign, and the sign says
whether the word has wrapped round in between. -/
theorem wrapDist_of_le (hle : x ≤ y) (hlt : (y - x) * 2 < m) :
    wrapDist m x y = if x.bdiv m = y.bdiv m then y - x else -(y - x) := by
  have hx := Int.bdiv_add_bmod x m
  have hy := Int.bdiv_add_bmod y m
  have hpos : (y - x).bmod m = y - x := Int.bmod_eq_of_le_mul_two (by omega) hlt
  have hneg : (x - y).bmod m = -(y - x) := by
    rw [neg_sub]
    exact Int.bmod_eq_of_le_mul_two (by omega) (by omega)
  rw [wrapDist_eq, hpos, hneg]
  rcases bdiv_cases hle hlt with h | h
  · -- the words are in the order of the counts
    rw [if_pos h.symm]
    rw [h] at hy
    split <;> omega
  · -- the word of the larger count has come round below the other one
    have hne : x.bdiv m ≠ y.bdiv m := by omega
    rw [if_neg hne]
    rw [h, mul_add] at hy
    split <;> omega

theorem wrapDist_of_lt (hlt : |y - x| * 2 < m) :
    wrapDist m x y = if x.bdiv m = y.bdiv m then |y - x| else -|y - x| := by
  rcases le_total x y with hle | hle
  · rw [abs_of_nonneg (by omega)] at hlt ⊢
    exact wrapDist_of_le hle hlt
  · rw [abs_sub_comm, abs_of_nonneg (by omega)] at hlt ⊢
    rw [wrapDist_comm, wrapDist_of_le hle hlt]
    simp only [eq_comm]

/-- **When the distance is right.** -/
theorem wrapDist_eq_abs_iff (hlt : |y - x| * 2 < m) :
    wrapDist m x y = |y - x| ↔ x.bdiv m = y.bdiv m := by
  rw [wrapDist_of_lt hlt]
  constructor
  · intro h
    by_contra hne
    rw [if_neg hne] at h
    have hzero : |y - x| = 0 := by omega
    have hxy : x = y := (sub_eq_zero.mp (abs_eq_zero.mp hzero)).symm
    exact hne (by rw [hxy])
  · exact fun h => if_pos h

/-- Wrong or right, it is zero for equal counts only. -/
theorem eq_of_wrapDist (hlt : |y - x| * 2 < m) (h : wrapDist m x y = 0) : x = y := by
  rw [wrapDist_of_lt hlt] at h
  have hzero : |y - x| = 0 := by
    split at h
    · exact h
    · omega
  exact (sub_eq_zero.mp (abs_eq_zero.mp hzero)).symm

end Wrap

end Vehicle.Numeric
