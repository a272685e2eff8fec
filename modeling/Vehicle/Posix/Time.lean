import Mathlib.Data.Int.Notation

/-!
# Clock readings

What `gettimeofday` stores.
-/

namespace Vehicle.Posix

/-- `timeval`. -/
structure Timeval where
  tvSec : ℤ
  tvUsec : ℤ
  deriving DecidableEq, Repr

/-- What `gettimeofday` stores has less than a second in `tv_usec`. -/
def Timeval.Normal (tv : Timeval) : Prop := 0 ≤ tv.tvUsec ∧ tv.tvUsec < 1000000

instance (tv : Timeval) : Decidable tv.Normal :=
  inferInstanceAs (Decidable (0 ≤ tv.tvUsec ∧ tv.tvUsec < 1000000))

end Vehicle.Posix
