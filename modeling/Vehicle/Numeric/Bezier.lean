import Mathlib.LinearAlgebra.AffineSpace.Ordered
import Mathlib.Tactic.Module

/-!
# Bezier curves

The curve with the controls `c 0, …, c n` by de Casteljau's recursion: the point at `t` lies between
the points at `t` of the two curves that leave out the last, respectively the first control. By
induction on the degree the curve runs from `c 0` to `c n`, is monotone in its controls, stays
within any bounds of theirs, and rises where they do (`casteljau_le_casteljau`).
-/

namespace Vehicle.Numeric

open AffineMap

section Casteljau

variable {k E : Type*} [Ring k] [AddCommGroup E] [Module k E]

/-- The point at `t` of the curve of degree `n` with the controls `c 0, …, c n`. -/
def casteljau : ℕ → (ℕ → E) → k → E
  | 0, c, _ => c 0
  | n + 1, c, t => lineMap (casteljau n c t) (casteljau n (fun i => c (i + 1)) t) t

theorem casteljau_zero (n : ℕ) (c : ℕ → E) : casteljau n c (0 : k) = c 0 := by
  induction n with
  | zero => rfl
  | succ n ih => rw [casteljau, lineMap_apply_zero, ih]

theorem casteljau_one (n : ℕ) (c : ℕ → E) : casteljau n c (1 : k) = c n := by
  induction n generalizing c with
  | zero => rfl
  | succ n ih => rw [casteljau, lineMap_apply_one, ih]

theorem casteljau_const (n : ℕ) (a : E) (t : k) : casteljau n (fun _ => a) t = a := by
  induction n with
  | zero => rfl
  | succ n ih => rw [casteljau, ih, lineMap_same_apply]

variable [PartialOrder k] [IsOrderedRing k] [PartialOrder E] [IsOrderedAddMonoid E]
  [IsStrictOrderedModule k E] {n : ℕ} {c d : ℕ → E} {a : E} {t u v : k}

/-- **A curve with higher controls lies higher.** -/
theorem casteljau_mono (h0 : 0 ≤ t) (h1 : t ≤ 1) (h : ∀ i ≤ n, c i ≤ d i) :
    casteljau n c t ≤ casteljau n d t := by
  induction n generalizing c d with
  | zero => exact h 0 le_rfl
  | succ n ih =>
    have hinit := ih fun i hi => h i (by omega)
    have htail := ih (c := fun i => c (i + 1)) (d := fun i => d (i + 1)) fun i hi =>
      h (i + 1) (by omega)
    exact lineMap_mono_endpoints hinit htail h0 h1

/-- **A curve stays within the bounds of its controls.** -/
theorem le_casteljau (h0 : 0 ≤ t) (h1 : t ≤ 1) (h : ∀ i ≤ n, a ≤ c i) : a ≤ casteljau n c t := by
  have := casteljau_mono (c := fun _ => a) h0 h1 h
  rwa [casteljau_const] at this

theorem casteljau_le (h0 : 0 ≤ t) (h1 : t ≤ 1) (h : ∀ i ≤ n, c i ≤ a) : casteljau n c t ≤ a := by
  have := casteljau_mono (d := fun _ => a) h0 h1 h
  rwa [casteljau_const] at this

/-- The way from a point to a higher one rises. -/
theorem lineMap_mono_param {b : E} (hab : a ≤ b) (huv : u ≤ v) :
    lineMap a b u ≤ lineMap a b v := by
  rw [lineMap_apply_module', lineMap_apply_module']
  have hle : u • (b - a) ≤ v • (b - a) := smul_le_smul_of_nonneg_right huv (sub_nonneg.mpr hab)
  exact add_le_add_left hle a

/-- **A curve rises where its controls do.** -/
theorem casteljau_le_casteljau (hu : 0 ≤ u) (huv : u ≤ v) (hv : v ≤ 1)
    (h : ∀ i < n, c i ≤ c (i + 1)) : casteljau n c u ≤ casteljau n c v := by
  induction n generalizing c with
  | zero => exact le_rfl
  | succ n ih =>
    have hinit := ih fun i hi => h i (by omega)
    have htail := ih (c := fun i => c (i + 1)) fun i hi => h (i + 1) (by omega)
    -- the second curve lies above the first one
    have habove : casteljau n c u ≤ casteljau n (fun i => c (i + 1)) u :=
      casteljau_mono hu (huv.trans hv) fun i hi => h i (by omega)
    calc casteljau (n + 1) c u
        ≤ lineMap (casteljau n c u) (casteljau n (fun i => c (i + 1)) u) v :=
          lineMap_mono_param habove huv
      _ ≤ casteljau (n + 1) c v := lineMap_mono_endpoints hinit htail (hu.trans huv) hv

end Casteljau

/-- **The cubic**, by the weights of its four controls. -/
theorem casteljau_three {k E : Type*} [CommRing k] [AddCommGroup E] [Module k E] (c : ℕ → E)
    (t : k) :
    casteljau 3 c t = (1 - t) ^ 3 • c 0 + (3 * t * (1 - t) ^ 2) • c 1 +
      (3 * t ^ 2 * (1 - t)) • c 2 + t ^ 3 • c 3 := by
  simp only [casteljau, lineMap_apply_module]
  module

end Vehicle.Numeric
