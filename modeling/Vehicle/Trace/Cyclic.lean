import Mathlib.Data.List.Infix
import Mathlib.Data.List.Count
import Mathlib.Tactic.Common

/-!
# Cyclic programs

A process that runs one straight body of statements for ever. Its control point is the list of
statements still to be executed in the current lap, a nonempty tail of the body, so a fact about
every control point is a fact about the tails of one list, and `decide` settles it
(`Placed.of_tails`).

The accounting lemma (`lap_count`) relates how often a statement has been executed to how often it
still stands ahead, which is how counters kept by different statements of one body are compared.
-/

namespace Vehicle.Trace.Cyclic

variable {ι : Type*}

/-- The control point after the head of `i :: k`: the rest of the lap, or the next lap. -/
def advance (body : List ι) : List ι → List ι
  | [] => body
  | i :: k => i :: k

/-- `rest` is a control point of the cyclic program `body`. -/
def Placed (body rest : List ι) : Prop := rest ≠ [] ∧ rest <:+ body

theorem Placed.start {body : List ι} (h : body ≠ []) : Placed body body :=
  ⟨h, List.suffix_refl body⟩

theorem Placed.advance {body : List ι} {i : ι} {k : List ι} (h : Placed body (i :: k)) :
    Placed body (advance body k) := by
  have hk : k <:+ body := (List.suffix_cons i k).trans h.2
  cases k with
  | nil => exact Placed.start fun he => h.1 (List.suffix_nil.mp (he ▸ h.2))
  | cons j k => exact ⟨List.cons_ne_nil j k, hk⟩

/-- **Facts about control points**: what holds of every tail of the body holds at each of them. -/
theorem Placed.of_tails {body rest : List ι} {φ : List ι → Prop} (hφ : ∀ k ∈ body.tails, φ k)
    (h : Placed body rest) : φ rest :=
  hφ rest ((List.mem_tails rest body).mpr h.2)

/-- **Which statement comes before another one**, read off the tails of the body. -/
theorem Placed.head_advance_iff {body : List ι} {i j j' : ι} {k : List ι}
    (hbody : ∀ r ∈ body.tails, ((Cyclic.advance body r.tail).head? = some j ↔ r.head? = some j'))
    (h : Placed body (i :: k)) : (Cyclic.advance body k).head? = some j ↔ i = j' := by
  simpa using h.of_tails hbody

variable [DecidableEq ι]

/-- **Lap accounting.** If `j` was executed `done` times and the executed and the remaining
occurrences fill `n` laps, they still fill a whole number of laps after the head is executed. -/
theorem lap_count {body : List ι} {i j : ι} {k : List ι} {done n : ℕ}
    (h : done + (i :: k).count j = n * body.count j) :
    (done + if i = j then 1 else 0) + (advance body k).count j =
      (n + if k = [] then 1 else 0) * body.count j := by
  have hc : (i :: k).count j = k.count j + if i = j then 1 else 0 := by
    simp [List.count_cons]
  cases k with
  | nil => simp only [advance, if_true, Nat.add_mul, Nat.one_mul]; simp at hc; omega
  | cons i' k =>
    simp only [advance, if_neg (List.cons_ne_nil i' k), Nat.add_zero]
    omega

/-- **Two statements of one body** that fill their laps, with `a` times `j` and `b` times `k` equal
over a lap and never more than `c` apart within one, are executed in the same proportion. -/
theorem lap_le {body rest : List ι} {j k : ι} {doneJ doneK n a b c : ℕ}
    (hj : doneJ + rest.count j = n * body.count j) (hk : doneK + rest.count k = n * body.count k)
    (hlap : a * body.count j = b * body.count k) (hrest : b * rest.count k ≤ a * rest.count j + c) :
    a * doneJ ≤ b * doneK + c := by
  have hj' : a * doneJ + a * rest.count j = n * (a * body.count j) := by
    rw [← Nat.mul_add, hj]
    exact Nat.mul_left_comm a n _
  have hk' : b * doneK + b * rest.count k = n * (b * body.count k) := by
    rw [← Nat.mul_add, hk]
    exact Nat.mul_left_comm b n _
  rw [hlap] at hj'
  omega

/-- How many statements are executed from a control point until `j` stands at its head. -/
def distance (body : List ι) (j : ι) (rest : List ι) : ℕ :=
  if j ∈ rest then rest.idxOf j else rest.length + body.idxOf j

/-- **Every statement executed on the way to `j` brings it nearer.** -/
theorem distance_advance {body : List ι} {i j : ι} {k : List ι} (hj : j ∈ body) (hij : i ≠ j) :
    distance body j (advance body k) < distance body j (i :: k) := by
  cases k with
  | nil =>
    have hno : j ∉ [i] := by simpa using Ne.symm hij
    rw [distance, distance, if_neg hno, advance, if_pos hj, List.length_singleton]
    omega
  | cons i' k =>
    simp only [advance]
    by_cases hmem : j ∈ i' :: k
    · have hmem' : j ∈ i :: i' :: k := List.mem_cons_of_mem _ hmem
      rw [distance, distance, if_pos hmem, if_pos hmem', List.idxOf_cons_ne _ hij]
      omega
    · have hmem' : j ∉ i :: i' :: k := by
        simp only [List.mem_cons, not_or] at hmem ⊢
        exact ⟨Ne.symm hij, hmem⟩
      rw [distance, distance, if_neg hmem, if_neg hmem', List.length_cons (a := i)]
      omega

end Vehicle.Trace.Cyclic
