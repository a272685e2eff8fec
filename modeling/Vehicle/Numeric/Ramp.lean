import Mathlib.Algebra.Order.Floor.Semiring
import Mathlib.Algebra.Order.Field.Basic
import Mathlib.Tactic.Linarith
import Mathlib.Tactic.Ring

/-!
# A sum that starts again when it is full

A sum grows by `e` until it reaches `top`, and then starts again at `e` (`Refills`). Whatever it is
at first, it is full after a while, and from then on goes through the same `teeth` stages again and
again (`exists_stages`).
-/

namespace Vehicle.Numeric

variable {K : Type*} [Field K] [LinearOrder K] {e top x y : K} {j m n : ℕ}

/-- One step: what the sum is cut off at is full; it may also start again where it is not
positive. -/
structure Refills (e top x y : K) : Prop where
  full : top ≤ x → y = e
  grows : x < top → y = x + e ∨ top ≤ y ∧ y ≤ x + e ∨ x ≤ 0 ∧ y = e

/-- As long as it is not full, the sum grows. -/
theorem Refills.le_of_lt [IsStrictOrderedRing K] (hr : Refills e top x y) (hx : x < top) :
    top ≤ y ∨ x + e ≤ y := by
  rcases hr.grows hx with rfl | ⟨hy, -⟩ | ⟨hneg, rfl⟩
  · exact .inr le_rfl
  · exact .inl hy
  · exact .inr (by linarith)

/-- How many stages there are. -/
def teeth [FloorSemiring K] (e top : K) : ℕ := max 1 ⌈top / e⌉₊

/-- Stage `j` of a round. -/
structure Stage [FloorSemiring K] (e top : K) (j : ℕ) (x : K) : Prop where
  pos : 1 ≤ j
  le : j ≤ teeth e top
  eq : x = j * e ∨ j = teeth e top ∧ top ≤ x

/-- The stage that is `n` steps behind the last of `m`. -/
def tooth (m n : ℕ) : ℕ := (n + m - 1) % m + 1

theorem tooth_zero (hm : 1 ≤ m) : tooth m 0 = m := by
  rw [tooth, Nat.zero_add, Nat.mod_eq_of_lt (by omega)]
  omega

theorem tooth_succ (hm : 1 ≤ m) (n : ℕ) :
    tooth m (n + 1) = if tooth m n = m then 1 else tooth m n + 1 := by
  have hstep : n + 1 + m - 1 = (n + m - 1) + 1 := by omega
  rw [tooth, tooth, hstep, Nat.add_mod_eq_ite]
  have hlt := Nat.mod_lt (n + m - 1) hm
  rcases hm.eq_or_lt with rfl | hm'
  · simp [Nat.mod_one]
  · rw [Nat.mod_eq_of_lt hm']
    split <;> split <;> omega

variable [FloorSemiring K]

theorem one_le_teeth : 1 ≤ teeth e top := le_max_left _ _

theorem Stage.first : Stage e top 1 e :=
  ⟨le_rfl, one_le_teeth, .inl (by rw [Nat.cast_one, one_mul])⟩

variable [IsStrictOrderedRing K]

theorem le_mul_iff_teeth_le (he : 0 < e) (hj : 1 ≤ j) : top ≤ j * e ↔ teeth e top ≤ j := by
  rw [teeth, max_le_iff, Nat.ceil_le, div_le_iff₀ he]
  exact ⟨fun h => ⟨hj, h⟩, fun h => h.2⟩

/-- A stage is full when it is the last. -/
theorem Stage.full_iff (h : Stage e top j x) (he : 0 < e) : top ≤ x ↔ j = teeth e top := by
  rcases h.eq with rfl | ⟨hj, htop⟩
  · rw [le_mul_iff_teeth_le he h.pos]
    exact ⟨fun hle => le_antisymm h.le hle, fun hj => hj.ge⟩
  · exact ⟨fun _ => hj, fun _ => htop⟩

theorem Stage.next (h : Stage e top j x) (he : 0 < e) (hr : Refills e top x y) :
    Stage e top (if j = teeth e top then 1 else j + 1) y := by
  split
  · rename_i hj
    rw [hr.full ((h.full_iff he).mpr hj)]
    exact .first
  · rename_i hj
    have hlt : j + 1 ≤ teeth e top := lt_of_le_of_ne h.le hj
    have hx : x = j * e := h.eq.resolve_right fun hfull => hj hfull.1
    have hpos : 0 < x := by
      rw [hx]
      exact mul_pos (by exact_mod_cast h.pos) he
    have hnot : x < top := not_le.mp fun hle => hj ((h.full_iff he).mp hle)
    have hsucc : x + e = (j + 1 : ℕ) * e := by
      rw [hx]
      push_cast
      ring
    rcases hr.grows hnot with rfl | ⟨hy, hle⟩ | ⟨hneg, -⟩
    · exact ⟨Nat.le_add_left 1 j, hlt, .inl hsucc⟩
    · have hteeth := (le_mul_iff_teeth_le he (Nat.le_add_left 1 j)).mp (hsucc ▸ hy.trans hle)
      exact ⟨Nat.le_add_left 1 j, hlt, .inr ⟨le_antisymm hlt hteeth, hy⟩⟩
    · exact absurd hpos hneg.not_gt

section Sequence

variable {x : ℕ → K}

theorem exists_full (he : 0 < e) (hr : ∀ n, Refills e top (x n) (x (n + 1))) :
    ∃ k ≤ ⌈(top - x 0) / e⌉₊, top ≤ x k := by
  have key : ∀ n : ℕ, (∃ k ≤ n, top ≤ x k) ∨ x 0 + n * e ≤ x n := by
    intro n
    induction n with
    | zero => exact .inr (by simp)
    | succ n ih =>
      rcases ih with ⟨k, hk, hfull⟩ | hle
      · exact .inl ⟨k, hk.trans n.le_succ, hfull⟩
      · rcases le_or_gt top (x n) with hfull | hnot
        · exact .inl ⟨n, n.le_succ, hfull⟩
        · rcases (hr n).le_of_lt hnot with hfull | hgrown
          · exact .inl ⟨n + 1, le_rfl, hfull⟩
          · refine .inr ?_
            push_cast
            linarith
  rcases key ⌈(top - x 0) / e⌉₊ with h | h
  · exact h
  · have hceil : (top - x 0) / e ≤ ⌈(top - x 0) / e⌉₊ := Nat.le_ceil _
    rw [div_le_iff₀ he] at hceil
    exact ⟨_, le_rfl, by linarith⟩

/-- **The sum goes round**: once it is full, it is in one stage after the other. -/
theorem exists_stages (he : 0 < e) (hr : ∀ n, Refills e top (x n) (x (n + 1))) :
    ∃ k ≤ ⌈(top - x 0) / e⌉₊, ∀ n, Stage e top (tooth (teeth e top) n) (x (k + n)) := by
  obtain ⟨k, hk, hfull⟩ := exists_full he hr
  refine ⟨k, hk, fun n => ?_⟩
  induction n with
  | zero =>
    rw [tooth_zero one_le_teeth]
    exact ⟨one_le_teeth, le_rfl, .inr ⟨rfl, hfull⟩⟩
  | succ n ih =>
    rw [tooth_succ one_le_teeth]
    exact ih.next he (hr (k + n))

end Sequence

end Vehicle.Numeric
