import Mathlib.Algebra.Group.Nat.Even
import Mathlib.Algebra.Ring.Parity
import Mathlib.Tactic.Common

/-!
# Parity bits

A list of bits folded with `xor` tells whether the number of its ones is odd
(`parity_eq_true_iff`), so with this bit behind it the list has an even number of ones
(`even_count_parity`).
-/

namespace Vehicle.Numeric

variable {bs : List Bool} {b : Bool}

/-- The bits folded with `xor`. -/
def parity (bs : List Bool) : Bool := bs.foldl (fun p b => b ^^ p) false

/-- The bits of a word, the lowest first. -/
def bits {n : ℕ} (w : BitVec n) : List Bool := (List.range n).map w.getLsbD

theorem foldl_xor (bs : List Bool) (b : Bool) :
    bs.foldl (fun p b => b ^^ p) b = (parity bs ^^ b) := by
  induction bs generalizing b with
  | nil => simp [parity]
  | cons a bs ih =>
    rw [parity, List.foldl_cons, List.foldl_cons, ih, ih (a ^^ false), Bool.xor_false,
      Bool.xor_assoc]

theorem parity_cons (b : Bool) (bs : List Bool) : parity (b :: bs) = (parity bs ^^ b) := by
  rw [parity, List.foldl_cons, foldl_xor, Bool.xor_false]

/-- **The fold tells whether the number of ones is odd.** -/
theorem parity_eq_true_iff : parity bs = true ↔ Odd (bs.count true) := by
  induction bs with
  | nil => simp [parity]
  | cons b bs ih =>
    rw [parity_cons, List.count_cons]
    cases b with
    | false => simpa using ih
    | true =>
      rw [Bool.xor_true, Bool.not_eq_true', ← Bool.not_eq_true, ih, Nat.not_odd_iff_even]
      simp [Nat.odd_add_one]

/-- **A list with its parity behind it has an even number of ones.** -/
theorem even_count_parity (bs : List Bool) : Even ((bs ++ [parity bs]).count true) := by
  rw [List.count_append, List.count_singleton]
  cases h : parity bs with
  | false =>
    have hodd : ¬ Odd (bs.count true) := by rw [← parity_eq_true_iff, h]; exact Bool.false_ne_true
    simpa using Nat.not_odd_iff_even.mp hodd
  | true => simpa using (parity_eq_true_iff.mp h).add_one

end Vehicle.Numeric
