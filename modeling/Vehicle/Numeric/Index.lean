import Mathlib.Algebra.GroupWithZero.Nat

/-!
# Indices

A numeral of `Fin n` needs `n ≠ 0`. The instances for the lengths of the tables are here, so that a
numeral is the same term wherever it is written.
-/

namespace Vehicle.Numeric

instance neZero_three : NeZero 3 := ⟨by decide⟩

instance neZero_four : NeZero 4 := ⟨by decide⟩

instance neZero_six : NeZero 6 := ⟨by decide⟩

end Vehicle.Numeric
