import Mathlib.Algebra.Order.Ring.Nat
import Mathlib.Data.List.GetD
import Mathlib.Tactic.Common

/-!
# The layout of a C structure

Members are placed in the order of their declaration, each at the next multiple of its alignment,
and the size of the whole is rounded up to the largest alignment. A member ends before the next one
begins (`offset_add_size_le_offset`), and inside the structure (`offset_add_size_le_sizeof`).
-/

namespace Vehicle.Posix

/-- Size and alignment of a type. -/
structure CType where
  size : ℕ
  align : ℕ
  size_pos : 0 < size
  align_pos : 0 < align

/-- The next multiple of `a` from `n` on. -/
def alignUp (n a : ℕ) : ℕ := (n + a - 1) / a * a

theorem le_alignUp {n a : ℕ} (h : 0 < a) : n ≤ alignUp n a := by
  have hlt : n + a - 1 < a * ((n + a - 1) / a + 1) := Nat.lt_mul_div_succ (n + a - 1) h
  rw [Nat.mul_add, Nat.mul_comm a] at hlt
  unfold alignUp
  omega

/-- Where the members are placed, from position `pos` on. -/
def offsets (pos : ℕ) : List CType → List ℕ
  | [] => []
  | t :: ts => alignUp pos t.align :: offsets (alignUp pos t.align + t.size) ts

/-- The position behind the last member. -/
def endOf (pos : ℕ) : List CType → ℕ
  | [] => pos
  | t :: ts => endOf (alignUp pos t.align + t.size) ts

/-- `offsetof` of the member with number `k`. -/
def offset (ts : List CType) (k : ℕ) : ℕ := (offsets 0 ts).getD k 0

/-- The size of the member with number `k`. -/
def sizeAt (ts : List CType) (k : ℕ) : ℕ := (ts.map CType.size).getD k 0

/-- `sizeof` of the structure. -/
def sizeof (ts : List CType) : ℕ := alignUp (endOf 0 ts) ((ts.map CType.align).foldr max 1)

theorem le_endOf (pos : ℕ) (ts : List CType) : pos ≤ endOf pos ts := by
  induction ts generalizing pos with
  | nil => exact le_rfl
  | cons t ts ih =>
    have h := le_alignUp (n := pos) t.align_pos
    have h' := ih (alignUp pos t.align + t.size)
    unfold endOf
    omega

/-- Members start at `pos` or behind it. -/
theorem le_offsets (pos : ℕ) {k : ℕ} {ts : List CType} (hk : k < ts.length) :
    pos ≤ (offsets pos ts).getD k 0 := by
  induction ts generalizing pos k with
  | nil => simp at hk
  | cons t ts ih =>
    have h := le_alignUp (n := pos) t.align_pos
    cases k with
    | zero => simpa [offsets] using h
    | succ k =>
      have h' := ih (alignUp pos t.align + t.size) (k := k) (by simpa using hk)
      simp only [offsets, List.getD_cons_succ]
      omega

/-- Members end before the end. -/
theorem offsets_add_size_le (pos : ℕ) {k : ℕ} {ts : List CType} (hk : k < ts.length) :
    (offsets pos ts).getD k 0 + (ts.map CType.size).getD k 0 ≤ endOf pos ts := by
  induction ts generalizing pos k with
  | nil => simp at hk
  | cons t ts ih =>
    cases k with
    | zero => simpa [offsets, endOf] using le_endOf (alignUp pos t.align + t.size) ts
    | succ k =>
      have h := ih (alignUp pos t.align + t.size) (k := k) (by simpa using hk)
      simpa [offsets, endOf] using h

/-- A member ends before a later one begins. -/
theorem offsets_add_size_le_offsets (pos : ℕ) {k n : ℕ} {ts : List CType} (hkn : k < n)
    (hn : n < ts.length) :
    (offsets pos ts).getD k 0 + (ts.map CType.size).getD k 0 ≤ (offsets pos ts).getD n 0 := by
  induction ts generalizing pos k n with
  | nil => simp at hn
  | cons t ts ih =>
    obtain ⟨n, rfl⟩ := Nat.exists_eq_succ_of_ne_zero (by omega : n ≠ 0)
    have hn' : n < ts.length := by simpa using hn
    cases k with
    | zero => simpa [offsets] using le_offsets (alignUp pos t.align + t.size) hn'
    | succ k => simpa [offsets] using ih (alignUp pos t.align + t.size) (by omega) hn'

theorem endOf_le_sizeof (ts : List CType) : endOf 0 ts ≤ sizeof ts := by
  have hpos : ∀ l : List ℕ, 0 < l.foldr max 1 := by
    intro l
    induction l with
    | nil => exact Nat.one_pos
    | cons a l ih => exact ih.trans_le (le_max_right _ _)
  exact le_alignUp (hpos _)

/-- **A member lies inside the structure.** -/
theorem offset_add_size_le_sizeof {ts : List CType} {k : ℕ} (hk : k < ts.length) :
    offset ts k + sizeAt ts k ≤ sizeof ts :=
  (offsets_add_size_le 0 hk).trans (endOf_le_sizeof ts)

/-- **Members do not overlap.** -/
theorem offset_add_size_le_offset {ts : List CType} {k n : ℕ} (hkn : k < n) (hn : n < ts.length) :
    offset ts k + sizeAt ts k ≤ offset ts n :=
  offsets_add_size_le_offsets 0 hkn hn

end Vehicle.Posix
