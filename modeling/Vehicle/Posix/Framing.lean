import Mathlib.Data.List.Basic
import Mathlib.Tactic.Common

/-!
# Frames in a stream of bytes

A sender puts a separator behind every payload, and the receiver cuts the stream at the separators.
If the payloads are free of it, and all of every frame goes into the stream, the receiver finds the
payloads. A frame that goes in partly leaves its separator out, so it is merged with the next one:
the receiver finds the payloads only if none does (`frames_flatMap_take_iff`).
-/

namespace Vehicle.Posix

variable {α : Type*} [DecidableEq α] {sep : α} {p bs : List α} {xs : List (List α × ℕ)}

/-- The complete frames in a stream: what stands before a separator. -/
def frames (sep : α) (bs : List α) : List (List α) := (bs.splitOn sep).dropLast

theorem frames_append (h : sep ∉ p) : frames sep (p ++ sep :: bs) = p :: frames sep bs := by
  rw [frames, List.splitOn_append_cons_self_of_not_mem h,
    List.dropLast_cons_of_ne_nil (List.splitOn_ne_nil sep bs)]
  rfl

theorem length_splitOn (sep : α) (bs : List α) :
    (bs.splitOn sep).length = bs.count sep + 1 := by
  induction bs with
  | nil => simp
  | cons b bs ih =>
    rw [List.splitOn_cons_eq_if_modifyHead, List.count_cons]
    split
    · rw [List.length_cons, ih]
    · rw [List.length_modifyHead, ih, Nat.add_zero]

/-- There are as many frames as separators. -/
theorem length_frames (sep : α) (bs : List α) : (frames sep bs).length = bs.count sep := by
  rw [frames, List.length_dropLast, length_splitOn, Nat.add_sub_cancel]

/-- **Complete frames are found.** -/
theorem frames_flatMap {ps : List (List α)} (h : ∀ p ∈ ps, sep ∉ p) :
    frames sep (ps.flatMap fun p => p ++ [sep]) = ps := by
  induction ps with
  | nil => rfl
  | cons p ps ih =>
    rw [List.flatMap_cons, List.append_assoc, List.singleton_append, frames_append (h p (by simp)),
      ih fun q hq => h q (by simp [hq])]

/-- A part of a frame holds the separator when it is all of it. -/
theorem count_take (h : sep ∉ p) (n : ℕ) :
    ((p ++ [sep]).take n).count sep = if p.length < n then 1 else 0 := by
  by_cases hn : p.length < n
  · rw [if_pos hn, List.take_of_length_le (by rw [List.length_append]; exact hn), List.count_append,
      List.count_eq_zero.mpr h, List.count_singleton_self]
  · rw [if_neg hn, List.take_append_of_le_length (Nat.le_of_not_lt hn)]
    exact List.count_eq_zero.mpr fun hmem => h (List.mem_of_mem_take hmem)

theorem count_flatMap_take (h : ∀ x ∈ xs, sep ∉ x.1) :
    (xs.flatMap fun x => (x.1 ++ [sep]).take x.2).count sep =
      xs.countP fun x => decide (x.1.length < x.2) := by
  induction xs with
  | nil => rfl
  | cons x xs ih =>
    rw [List.flatMap_cons, List.count_append, count_take (h x (by simp)),
      ih fun y hy => h y (by simp [hy]), List.countP_cons, Nat.add_comm]
    simp

/-- **When the receiver finds the payloads**: when every frame goes into the stream to its end. -/
theorem frames_flatMap_take_iff (h : ∀ x ∈ xs, sep ∉ x.1) :
    frames sep (xs.flatMap fun x => (x.1 ++ [sep]).take x.2) = xs.map Prod.fst ↔
      ∀ x ∈ xs, x.1.length < x.2 := by
  constructor
  · intro hframes
    have hlen := congrArg List.length hframes
    rw [length_frames, count_flatMap_take h, List.length_map] at hlen
    intro x hx
    exact of_decide_eq_true (List.countP_eq_length.mp hlen x hx)
  · intro hall
    have hwhole : (xs.flatMap fun x => (x.1 ++ [sep]).take x.2) =
        (xs.map Prod.fst).flatMap fun p => p ++ [sep] := by
      rw [List.flatMap_map]
      refine List.flatMap_congr fun x hx => ?_
      exact List.take_of_length_le (by rw [List.length_append]; exact hall x hx)
    rw [hwhole]
    refine frames_flatMap fun p hp => ?_
    obtain ⟨x, hx, rfl⟩ := List.mem_map.mp hp
    exact h x hx

end Vehicle.Posix
