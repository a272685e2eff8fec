import Mathlib.Algebra.Order.Field.Basic
import Mathlib.Algebra.Order.Round
import Mathlib.Data.Int.Log
import Mathlib.Tactic.FieldSimp
import Mathlib.Tactic.Linarith
import Mathlib.Tactic.Ring

/-!
# Rounding to a number of bits

A number other than zero is rounded to a multiple of the power of two that is the last of its first
`p` bits: to the nearest one, and halfway between two of them to the even one. The error is at most
one part in `2 ^ p` (`abs_roundBits_sub_le`). The exponent is not bounded.

The nearest integer of a value that is off is as near as the error allows (`abs_sub_round_le`), and
the right one where the value is not halfway between two integers (`round_eq_round`).
-/

namespace Vehicle.Numeric

variable {K : Type*} [Field K] [LinearOrder K] [IsStrictOrderedRing K] [FloorRing K]

/-- The nearest integer, and the even one of two. -/
def roundEven (x : K) : ℤ :=
  if x - ⌊x⌋ < ⌊x⌋ + 1 - x then ⌊x⌋
  else if ⌊x⌋ + 1 - x < x - ⌊x⌋ then ⌊x⌋ + 1
  else if ⌊x⌋ % 2 = 0 then ⌊x⌋
  else ⌊x⌋ + 1

/-- The last of the first `p` bits. -/
def lastBit (p : ℕ) (x : K) : K := (2 : ℕ) ^ (Int.log 2 |x| + 1 - p)

/-- The number rounded to `p` bits. -/
def roundBits (p : ℕ) (x : K) : K := roundEven (x / lastBit p x) * lastBit p x

theorem abs_roundEven_sub_le (x : K) : |roundEven x - x| ≤ 1 / 2 := by
  have hlo := Int.floor_le x
  have hhi := Int.lt_floor_add_one x
  unfold roundEven
  rw [abs_le]
  split
  · constructor <;> linarith
  · split
    · push_cast
      constructor <;> linarith
    · split
      · constructor <;> linarith
      · push_cast
        constructor <;> linarith

theorem lastBit_pos (p : ℕ) (x : K) : 0 < lastBit p x := zpow_pos (by norm_num) _

/-- The last bit is one part in `2 ^ (p - 1)` of the number at most. -/
theorem lastBit_mul_le {x : K} (p : ℕ) (hx : x ≠ 0) : lastBit p x * 2 ^ p ≤ 2 * |x| := by
  have h2 : ((2 : ℕ) : K) ≠ 0 := by simp
  have hlog : ((2 : ℕ) : K) ^ Int.log 2 |x| ≤ |x| :=
    Int.zpow_log_le_self (by omega) (abs_pos.mpr hx)
  calc lastBit p x * 2 ^ p
      = (2 : ℕ) ^ (Int.log 2 |x| + 1 - p) * (2 : ℕ) ^ (p : ℤ) := by
        rw [lastBit, zpow_natCast, Nat.cast_ofNat]
    _ = (2 : ℕ) ^ (Int.log 2 |x| + 1) := by rw [← zpow_add₀ h2, sub_add_cancel]
    _ = 2 * (2 : ℕ) ^ Int.log 2 |x| := by rw [zpow_add_one₀ h2, mul_comm, Nat.cast_ofNat]
    _ ≤ 2 * |x| := by linarith

/-- **The error of rounding to `p` bits.** -/
theorem abs_roundBits_sub_le (p : ℕ) (x : K) : |roundBits p x - x| ≤ |x| / 2 ^ p := by
  have hbit := lastBit_pos p x
  have hpow : (0 : K) < 2 ^ p := pow_pos two_pos p
  rcases eq_or_ne x 0 with rfl | hx
  · simp [roundBits, roundEven]
  have hsplit : roundBits p x - x =
      (roundEven (x / lastBit p x) - x / lastBit p x) * lastBit p x := by
    rw [roundBits]
    field_simp
  calc |roundBits p x - x|
      = |roundEven (x / lastBit p x) - x / lastBit p x| * lastBit p x := by
        rw [hsplit, abs_mul, abs_of_pos hbit]
    _ ≤ 1 / 2 * lastBit p x :=
        mul_le_mul_of_nonneg_right (abs_roundEven_sub_le _) hbit.le
    _ ≤ |x| / 2 ^ p := by
        rw [le_div_iff₀ hpow]
        linarith [lastBit_mul_le p hx]

/-! ### The nearest integer of a value that is off -/

section Near

variable {x y e : K}

theorem abs_sub_round_le (h : |y - x| ≤ e) (m : ℤ) : |x - round y| ≤ |x - m| + 2 * e := by
  have hxy : |x - y| ≤ e := by rwa [abs_sub_comm]
  have hround : |y - round y| ≤ |y - m| := round_le y m
  have hm : |y - m| ≤ |y - x| + |x - m| := abs_sub_le _ _ _
  calc |x - round y|
      ≤ |x - y| + |y - round y| := abs_sub_le _ _ _
    _ ≤ |x - m| + 2 * e := by linarith

theorem round_eq_round (h : |y - x| ≤ e) (hfar : ∀ k : ℤ, e < |x - (k + 1 / 2)|) :
    round y = round x := by
  obtain ⟨hlo, hhi⟩ := abs_le.mp h
  obtain ⟨hy1, hy2⟩ := round_eq_iff.mp (rfl : round y = round y)
  have hbelow := hfar (round y - 1)
  have habove := hfar (round y)
  push_cast at hbelow
  refine (round_eq_iff.mpr ⟨?_, ?_⟩).symm
  · by_contra hx
    rw [abs_of_neg (by linarith)] at hbelow
    linarith
  · by_contra hx
    rw [abs_of_nonneg (by linarith)] at habove
    linarith

end Near

end Vehicle.Numeric
