import Mathlib.Algebra.Field.Basic
import Mathlib.LinearAlgebra.FiniteDimensional.Lemmas
import Mathlib.LinearAlgebra.Matrix.Determinant.Basic
import Mathlib.LinearAlgebra.Matrix.ToLin

/-!
# Homographies

A square matrix maps points by their homogeneous coordinates, where the denominator is not zero. A
linear map with an eigenvector in each direction of a frame, a basis and a vector none of whose
coordinates is zero, is a multiple of the identity (`IsFrame.eq_smul`). So two homographies of a
space of dimension `n` that take `n + 2` points in general position there and back undo each other
at every point (`map_map`).
-/

namespace Vehicle.Numeric

/-! ### Frames -/

section Frame

variable {ι K V : Type*} [Fintype ι] [Field K] [AddCommGroup V] [Module K V]

/-- A basis, and a vector none of whose coordinates is zero. -/
structure IsFrame (K : Type*) {ι V : Type*} [Fintype ι] [Field K] [AddCommGroup V] [Module K V]
    (v : ι → V) (w : V) : Prop where
  indep : LinearIndependent K v
  span : Submodule.span K (Set.range v) = ⊤
  unit : ∃ c : ι → K, (∀ i, c i ≠ 0) ∧ w = ∑ i, c i • v i

/-- **A linear map that keeps the directions of a frame is a multiple of the identity.** -/
theorem IsFrame.eq_smul {v : ι → V} {w : V} (h : IsFrame K v w) {f : V →ₗ[K] V}
    (hv : ∀ i, ∃ s : K, f (v i) = s • v i) {t : K} (hw : f w = t • w) (x : V) : f x = t • x := by
  obtain ⟨c, hc, rfl⟩ := h.unit
  choose s hs using hv
  have hsum : ∑ i, (c i * (s i - t)) • v i = 0 := by
    have hleft : f (∑ i, c i • v i) = ∑ i, (c i * s i) • v i := by
      rw [map_sum]
      exact Finset.sum_congr rfl fun i _ => by rw [map_smul, hs, smul_smul]
    rw [hleft, Finset.smul_sum, ← sub_eq_zero, ← Finset.sum_sub_distrib] at hw
    rw [← hw]
    refine Finset.sum_congr rfl fun i _ => ?_
    rw [smul_smul, ← sub_smul, mul_sub, mul_comm t]
  -- the eigenvalues agree
  have hst : ∀ i, s i = t := by
    intro i
    have hzero := Fintype.linearIndependent_iff.mp h.indep _ hsum i
    exact sub_eq_zero.mp ((mul_eq_zero.mp hzero).resolve_left (hc i))
  have hf : f = t • LinearMap.id := by
    refine LinearMap.ext_on_range h.span fun i => ?_
    rw [hs, hst]
    rfl
  rw [hf]
  rfl

end Frame

/-! ### Homographies -/

namespace Homography

open Matrix

variable {K : Type*} [Field K] {n : ℕ} {M N : Matrix (Fin (n + 1)) (Fin (n + 1)) K}
  {p q : Fin n → K}

/-- The homogeneous coordinates of a point. -/
def lift (p : Fin n → K) : Fin (n + 1) → K := Fin.snoc p 1

/-- The denominator of the map at a point. -/
def denominator (M : Matrix (Fin (n + 1)) (Fin (n + 1)) K) (p : Fin n → K) : K :=
  (M *ᵥ lift p) (Fin.last n)

/-- The point a point is mapped to, where the denominator is not zero. -/
def map (M : Matrix (Fin (n + 1)) (Fin (n + 1)) K) (p : Fin n → K) : Fin n → K :=
  fun i => (M *ᵥ lift p) i.castSucc / denominator M p

/-- The map sends one point to the other. -/
def Sends (M : Matrix (Fin (n + 1)) (Fin (n + 1)) K) (p q : Fin n → K) : Prop :=
  ∃ t : K, t ≠ 0 ∧ M *ᵥ lift p = t • lift q

/-- The points are in general position. -/
def General (p : Fin (n + 1 + 1) → Fin n → K) : Prop :=
  IsFrame K (fun i : Fin (n + 1) => lift (p i.castSucc)) (lift (p (Fin.last (n + 1))))

@[simp]
theorem lift_castSucc (p : Fin n → K) (i : Fin n) : lift p i.castSucc = p i := by
  simp [lift]

@[simp]
theorem lift_last (p : Fin n → K) : lift p (Fin.last n) = 1 := by simp [lift]

theorem sends_map (h : denominator M p ≠ 0) : Sends M p (map M p) := by
  refine ⟨denominator M p, h, funext fun i => ?_⟩
  induction i using Fin.lastCases with
  | last =>
    rw [Pi.smul_apply, smul_eq_mul, lift_last, mul_one]
    rfl
  | cast i =>
    rw [Pi.smul_apply, smul_eq_mul, lift_castSucc]
    exact (mul_div_cancel₀ _ h).symm

theorem denominator_eq {t : K} (h : M *ᵥ lift p = t • lift q) : denominator M p = t := by
  rw [denominator, h, Pi.smul_apply, lift_last, smul_eq_mul, mul_one]

theorem Sends.denominator_ne (h : Sends M p q) : denominator M p ≠ 0 := by
  obtain ⟨t, ht, h⟩ := h
  rwa [denominator_eq h]

theorem Sends.map_eq (h : Sends M p q) : map M p = q := by
  obtain ⟨t, ht, h⟩ := h
  funext i
  rw [map, denominator_eq h, h, Pi.smul_apply, lift_castSucc, smul_eq_mul,
    mul_div_cancel_left₀ _ ht]

/-- Whether a point is sent to another one can be computed. -/
theorem sends_iff : Sends M p q ↔ denominator M p ≠ 0 ∧ map M p = q := by
  constructor
  · exact fun h => ⟨h.denominator_ne, h.map_eq⟩
  · rintro ⟨h, rfl⟩
    exact sends_map h

instance [DecidableEq K] (M : Matrix (Fin (n + 1)) (Fin (n + 1)) K) (p q : Fin n → K) :
    Decidable (Sends M p q) :=
  decidable_of_iff _ sends_iff.symm

/-- There and back. -/
theorem Sends.trans_back (hM : Sends M p q) (hN : Sends N q p) :
    ∃ s : K, s ≠ 0 ∧ (N * M) *ᵥ lift p = s • lift p := by
  obtain ⟨t, ht, hM⟩ := hM
  obtain ⟨s, hs, hN⟩ := hN
  refine ⟨t * s, mul_ne_zero ht hs, ?_⟩
  rw [← mulVec_mulVec, hM, mulVec_smul, hN, smul_smul]

/-- **Homographies that take points in general position there and back undo each other**, at every
point at which the first one is defined. -/
theorem map_map {ps qs : Fin (n + 1 + 1) → Fin n → K} (hps : General ps)
    (hM : ∀ i, Sends M (ps i) (qs i)) (hN : ∀ i, Sends N (qs i) (ps i))
    (hp : denominator M p ≠ 0) : denominator N (map M p) ≠ 0 ∧ map N (map M p) = p := by
  obtain ⟨t, ht, hlast⟩ := (hM (Fin.last _)).trans_back (hN (Fin.last _))
  have hall : ∀ x, (N * M) *ᵥ x = t • x := by
    refine hps.eq_smul (f := (N * M).mulVecLin) (fun i => ?_) hlast
    obtain ⟨s, -, hs⟩ := (hM i.castSucc).trans_back (hN i.castSucc)
    exact ⟨s, hs⟩
  obtain ⟨d, hd, hmap⟩ := sends_map hp
  have hback : Sends N (map M p) p := by
    refine ⟨t / d, div_ne_zero ht hd, ?_⟩
    have hcomp : d • (N *ᵥ lift (map M p)) = t • lift p := by
      rw [← mulVec_smul, ← hmap, mulVec_mulVec, hall]
    rw [div_eq_inv_mul, mul_smul, ← hcomp, smul_smul, inv_mul_cancel₀ hd, one_smul]
  exact ⟨hback.denominator_ne, hback.map_eq⟩

/-- Points are in general position when all but the last are not in one plane, and the last one has
coordinates with respect to them that are not zero. -/
theorem general_of_det {ps : Fin (n + 1 + 1) → Fin n → K}
    (hdet : (Matrix.of fun i : Fin (n + 1) => lift (ps i.castSucc)).det ≠ 0)
    (c : Fin (n + 1) → K) (hc : ∀ i, c i ≠ 0)
    (hsum : lift (ps (Fin.last (n + 1))) = ∑ i, c i • lift (ps i.castSucc)) : General ps := by
  have hindep : LinearIndependent K fun i : Fin (n + 1) => lift (ps i.castSucc) :=
    linearIndependent_rows_of_det_ne_zero hdet
  exact ⟨hindep, hindep.span_eq_top_of_card_eq_finrank (by simp), c, hc, hsum⟩

end Homography

end Vehicle.Numeric
