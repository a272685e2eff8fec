import Vehicle.Numeric.Wrap
import Vehicle.Recoverybase.UnitCheckpoint

/-!
# recoverybase: elapsed time on the vehicle's board

`share.cpp` of both programs has the same `diffus`. On the armv7l board the repository was
configured on, `time_t` and `suseconds_t` have 32 bits: each reading is converted to microseconds in
a word that wraps round every 71 minutes, the words are compared, and the smaller one is subtracted
from the larger one. The subtraction survives a wrap between the readings, the comparison does not:
then the result is the elapsed time with the wrong sign (`toInt_diffus`, `elapsed_iff`).
-/

namespace Vehicle.Recoverybase.Board

open Vehicle.Numeric

/-- `timeval` of the board. -/
structure Timeval32 where
  tvSec : Int32
  tvUsec : Int32
  deriving DecidableEq, Repr

/-- The reading it stands for. -/
def Timeval32.toTimeval (tv : Timeval32) : Timeval := ⟨tv.tvSec.toInt, tv.tvUsec.toInt⟩

/-- **`diffus`** of the board. -/
def diffus (tvStart tvEnd : Timeval32) : Int32 :=
  let t1 := 1000000 * tvStart.tvSec + tvStart.tvUsec
  let t2 := 1000000 * tvEnd.tvSec + tvEnd.tvUsec
  if t2 > t1 then t2 - t1 else t1 - t2

/-- The elapsed time in microseconds. -/
def elapsed (a b : Timeval32) : ℤ := |micros b.toTimeval - micros a.toTimeval|

/-- How often the word of microseconds has wrapped round up to a reading. -/
def Timeval32.turns (tv : Timeval32) : ℤ := (micros tv.toTimeval).bdiv (2 ^ 32)

/-- `diffus` is right for two readings. -/
structure Right (a b : Timeval32) : Prop where
  elapsed : (diffus a b).toInt = elapsed a b
  nonneg : 0 ≤ (diffus a b).toInt
  symm : diffus a b = diffus b a
  eq : diffus a b = 0 → a = b

section Diffus

variable {a b : Timeval32}

/-- The word of microseconds. -/
theorem toInt_micros (tv : Timeval32) :
    (1000000 * tv.tvSec + tv.tvUsec).toInt = (micros tv.toTimeval).bmod (2 ^ 32) := by
  have hmillion : (1000000 : Int32).toInt = 1000000 := rfl
  rw [Int32.toInt_add, Int32.toInt_mul, hmillion, Int.bmod_add_bmod]
  rfl

theorem toInt_diffus_eq (a b : Timeval32) :
    (diffus a b).toInt = wrapDist (2 ^ 32) (micros a.toTimeval) (micros b.toTimeval) := by
  have ha := toInt_micros a
  have hb := toInt_micros b
  unfold diffus wrapDist
  by_cases h : 1000000 * b.tvSec + b.tvUsec > 1000000 * a.tvSec + a.tvUsec
  · have hlt := Int32.lt_iff_toInt_lt.mp h
    rw [ha, hb] at hlt
    rw [if_pos h, if_pos hlt, Int32.toInt_sub, ha, hb]
  · have hle : ¬ (micros a.toTimeval).bmod (2 ^ 32) < (micros b.toTimeval).bmod (2 ^ 32) := by
      rw [← ha, ← hb, ← Int32.lt_iff_toInt_lt]
      exact h
    rw [if_neg h, if_neg hle, Int32.toInt_sub, ha, hb]

/-- Half a turn is less than half the modulus. -/
theorem elapsed_mul_two (h : elapsed a b < 2 ^ 31) : elapsed a b * 2 < (2 ^ 32 : ℕ) := by
  norm_num
  omega

/-- **What `diffus` returns** for readings less than half a turn apart. -/
theorem toInt_diffus (h : elapsed a b < 2 ^ 31) :
    (diffus a b).toInt = if a.turns = b.turns then elapsed a b else -elapsed a b := by
  rw [toInt_diffus_eq]
  exact wrapDist_of_lt (elapsed_mul_two h)

/-- When that is the elapsed time. -/
theorem toInt_diffus_iff (h : elapsed a b < 2 ^ 31) :
    (diffus a b).toInt = elapsed a b ↔ a.turns = b.turns := by
  rw [toInt_diffus_eq]
  exact wrapDist_eq_abs_iff (elapsed_mul_two h)

theorem diffus_comm (a b : Timeval32) : diffus a b = diffus b a := by
  rw [← Int32.toInt_inj, toInt_diffus_eq, toInt_diffus_eq, wrapDist_comm]

/-- A reading is known from its microseconds. -/
theorem eq_of_micros (ha : a.toTimeval.Normal) (hb : b.toTimeval.Normal)
    (h : micros a.toTimeval = micros b.toTimeval) : a = b := by
  obtain ⟨sa, ua⟩ := a
  obtain ⟨sb, ub⟩ := b
  obtain ⟨ha0, ha1⟩ := ha
  obtain ⟨hb0, hb1⟩ := hb
  simp only [Timeval32.toTimeval, micros] at ha0 ha1 hb0 hb1 h
  have hsec : sa = sb := Int32.toInt_inj.mp (by omega)
  have husec : ua = ub := Int32.toInt_inj.mp (by omega)
  rw [hsec, husec]

theorem eq_of_diffus (ha : a.toTimeval.Normal) (hb : b.toTimeval.Normal)
    (h : elapsed a b < 2 ^ 31) (hzero : diffus a b = 0) : a = b := by
  refine eq_of_micros ha hb (eq_of_wrapDist (elapsed_mul_two h) ?_)
  rw [← toInt_diffus_eq, hzero]
  rfl

/-- **When elapsed time is right on the board**: when the word of microseconds does not wrap round
between the two readings. -/
theorem elapsed_iff (ha : a.toTimeval.Normal) (hb : b.toTimeval.Normal)
    (h : elapsed a b < 2 ^ 31) : Right a b ↔ a.turns = b.turns := by
  constructor
  · exact fun hright => (toInt_diffus_iff h).mp hright.elapsed
  · intro hturns
    have helapsed := (toInt_diffus_iff h).mpr hturns
    have hnonneg : 0 ≤ elapsed a b := abs_nonneg _
    exact ⟨helapsed, helapsed ▸ hnonneg, diffus_comm a b, eq_of_diffus ha hb h⟩

end Diffus

/-- Two readings in the same turn. -/
theorem elapsed_iff_second :
    Right ⟨1589140046, 3648⟩ ⟨1589140047, 3647⟩ := by
  exact (elapsed_iff (by decide) (by decide) (by decide)).mpr (by decide)

/-- A microsecond over the end of a turn, on 10 May 2020: `diffus` returns -1. -/
theorem wrapped_microsecond : ¬ ∀ a b : Timeval32, a.toTimeval.Normal → b.toTimeval.Normal →
    0 ≤ a.tvSec.toInt → 0 ≤ b.tvSec.toInt → elapsed a b < 2 ^ 31 → Right a b := by
  intro h
  have hright := h ⟨1589140047, 3647⟩ ⟨1589140047, 3648⟩ (by decide) (by decide) (by decide)
    (by decide) (by decide)
  have hneg : (diffus ⟨1589140047, 3647⟩ ⟨1589140047, 3648⟩).toInt = -1 := by decide
  have hnonneg := hright.nonneg
  rw [hneg] at hnonneg
  omega

end Vehicle.Recoverybase.Board
