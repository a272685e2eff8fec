import Mathlib.Data.List.Count
import Mathlib.Tactic.Common

/-!
# Positions in a history

A history is the list of the labels executed so far; an event is a position in it. `FreeBetween`
says that no label of a kind stands strictly between two positions. Both are stable while the
history grows at its end. The labels of a kind cut a history into stretches (`stretches`).
-/

namespace Vehicle.Trace

variable {ι : Type*} {tr : List ι} {a b : ι} {i n : ℕ} {φ : ι → Prop}

/-- An event of a longer history is one of the shorter history or the new label. -/
theorem getElem?_snoc : (tr ++ [a])[n]? = some b ↔ tr[n]? = some b ∨ n = tr.length ∧ b = a := by
  rcases Nat.lt_trichotomy n tr.length with h | h | h
  · rw [List.getElem?_append_left h]
    constructor
    · exact Or.inl
    · rintro (h' | ⟨rfl, -⟩)
      · exact h'
      · omega
  · subst h
    simp [eq_comm]
  · rw [List.getElem?_eq_none (by simp; omega), List.getElem?_eq_none (by omega)]
    simp
    omega

theorem lt_length (h : tr[n]? = some b) : n < tr.length :=
  (List.getElem?_eq_some_iff.mp h).1

theorem getElem?_snoc_of (h : tr[n]? = some b) : (tr ++ [a])[n]? = some b :=
  getElem?_snoc.mpr (Or.inl h)

/-- An event of a prefix is one of the whole history. -/
theorem of_getElem?_take (h : (tr.take n)[i]? = some b) : i < n ∧ tr[i]? = some b := by
  have hlt : i < n := by
    have := lt_length h
    rw [List.length_take] at this
    omega
  rw [List.getElem?_take_of_lt hlt] at h
  exact ⟨hlt, h⟩

/-- No label with `φ` stands strictly between the positions `i` and `n`. -/
def FreeBetween (φ : ι → Prop) (tr : List ι) (i n : ℕ) : Prop :=
  ∀ k b, i < k → k < n → tr[k]? = some b → ¬ φ b

namespace FreeBetween

theorem snoc (h : FreeBetween φ tr i n) (hn : n ≤ tr.length) : FreeBetween φ (tr ++ [a]) i n := by
  intro k b hik hkn hk
  rcases getElem?_snoc.mp hk with hk | ⟨rfl, -⟩
  · exact h k b hik hkn hk
  · omega

/-- Up to the end of the history, grown by a label without `φ`. -/
theorem extend (h : FreeBetween φ tr i tr.length) (ha : ¬ φ a) :
    FreeBetween φ (tr ++ [a]) i (tr ++ [a]).length := by
  intro k b hik _ hk
  rcases getElem?_snoc.mp hk with hk | ⟨-, rfl⟩
  · exact h k b hik (lt_length hk) hk
  · exact ha

/-- Nothing stands behind the last position. -/
theorem last : FreeBetween φ (tr ++ [a]) tr.length (tr ++ [a]).length := by
  intro k b hik hkn _
  rw [List.length_append, List.length_singleton] at hkn
  omega

/-- In a prefix that holds both positions. -/
theorem of_take {m : ℕ} (h : FreeBetween φ (tr.take m) i n) (hn : n ≤ m) :
    FreeBetween φ tr i n := by
  intro k b hik hkn hk
  refine h k b hik hkn ?_
  rw [List.getElem?_take_of_lt (by omega)]
  exact hk

/-- Between the positions stand the labels of a stretch of the history. -/
theorem of_forall (h : ∀ b ∈ (tr.take n).drop (i + 1), ¬ φ b) : FreeBetween φ tr i n := by
  intro k b hik hkn hk
  refine h b (List.mem_of_getElem? (i := k - (i + 1)) ?_)
  rw [List.getElem?_drop, List.getElem?_take_of_lt (by omega)]
  rwa [show i + 1 + (k - (i + 1)) = k by omega]

/-- An event with `φ` does not stand behind `i`. -/
theorem le (h : FreeBetween φ tr i tr.length) (hn : tr[n]? = some b) (hb : φ b) : n ≤ i := by
  by_contra hlt
  exact h n b (by omega) (lt_length hn) hn hb

end FreeBetween

/-! ### Stretches -/

/-- The stretches of a history that end with a label of a kind, in order, without these labels; what
follows the last one is not completed and left out. -/
def stretches (P : ι → Bool) (tr : List ι) : List (List ι) := (tr.splitOnP P).dropLast

section Stretches

variable {P : ι → Bool}

theorem length_stretches (tr : List ι) : (stretches P tr).length = tr.countP P := by
  have hsplit : (tr.splitOnP P).length = tr.countP P + 1 := by
    induction tr with
    | nil => simp
    | cons a tr ih =>
      rw [List.splitOnP_cons_eq_if_modifyHead, List.countP_cons]
      cases P a <;> simp [ih]
  rw [stretches, List.length_dropLast, hsplit]
  rfl

theorem mem_of_mem_splitOnP {u : List ι} (hu : u ∈ tr.splitOnP P) (hb : b ∈ u) : b ∈ tr := by
  induction tr generalizing u with
  | nil =>
    obtain rfl : u = [] := by simpa using hu
    exact hb
  | cons a tr ih =>
    rw [List.splitOnP_cons_eq_if_modifyHead] at hu
    split at hu
    · rcases List.mem_cons.mp hu with rfl | hu
      · cases hb
      · exact List.mem_cons_of_mem a (ih hu hb)
    · obtain ⟨v, vs, hvs⟩ := List.exists_cons_of_ne_nil (List.splitOnP_ne_nil P tr)
      rw [hvs] at hu ih
      rcases List.mem_cons.mp hu with rfl | hu
      · rcases List.mem_cons.mp hb with rfl | hb
        · exact List.mem_cons_self
        · exact List.mem_cons_of_mem a (ih List.mem_cons_self hb)
      · exact List.mem_cons_of_mem a (ih (List.mem_cons_of_mem v hu) hb)

/-- A stretch is made of events of the history. -/
theorem mem_of_mem_stretches {u : List ι} (hu : u ∈ stretches P tr) (hb : b ∈ u) : b ∈ tr :=
  mem_of_mem_splitOnP (List.dropLast_subset _ hu) hb

end Stretches

end Vehicle.Trace
