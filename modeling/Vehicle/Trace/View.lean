import Vehicle.Trace.Lts

/-!
# Views

A view is a part of the state on which every label acts by itself: what it is after a step is a
function of the label and of what it was. After a run it is the fold of the labels over what it was
at the start, and the labels that leave it alone may be left out of that fold; so the order in which
other labels stand between those that count does not matter.
-/

namespace Vehicle.Trace

variable {σ ι ν : Type*} {M : Lts σ ι}

/-- A part of the state of a system, and how a label acts on it. -/
structure View (M : Lts σ ι) (ν : Type*) where
  get : σ → ν
  act : ι → ν → ν
  get_step : ∀ {s a t}, M.step s a = some t → get t = act a (get s)

namespace View

variable (V : View M ν) {s t : σ} {tr : List ι}

/-- **What a view is after a run.** -/
theorem get_run (h : M.Run s tr t) : V.get t = tr.foldl (fun v a => V.act a v) (V.get s) := by
  induction h with
  | nil => rfl
  | snoc _ hs ih => rw [V.get_step hs, ih, List.foldl_append, List.foldl_cons, List.foldl_nil]

variable {p : ι → Prop} [DecidablePred p]

/-- The labels that do not act may be left out. -/
theorem foldl_filter (hid : ∀ a v, ¬ p a → V.act a v = v) (tr : List ι) (v : ν) :
    (tr.filter p).foldl (fun v a => V.act a v) v = tr.foldl (fun v a => V.act a v) v := by
  induction tr generalizing v with
  | nil => rfl
  | cons a tr ih =>
    by_cases ha : p a
    · rw [List.filter_cons_of_pos (by simpa using ha), List.foldl_cons, List.foldl_cons, ih]
    · rw [List.filter_cons_of_neg (by simpa using ha), List.foldl_cons, hid a v ha, ih]

theorem get_run_filter (h : M.Run s tr t) (hid : ∀ a v, ¬ p a → V.act a v = v) :
    V.get t = (tr.filter p).foldl (fun v a => V.act a v) (V.get s) := by
  rw [V.foldl_filter hid]
  exact V.get_run h

/-- The last label that acts has the last word. -/
theorem get_of_last (h : M.Run s tr t) (hid : ∀ a v, ¬ p a → V.act a v = v) {a : ι}
    (ha : (tr.filter p).getLast? = some a) : ∃ v, V.get t = V.act a v := by
  obtain ⟨l, hl⟩ := List.getLast?_eq_some_iff.mp ha
  refine ⟨l.foldl (fun v a => V.act a v) (V.get s), ?_⟩
  rw [V.get_run_filter h hid, hl, List.foldl_append, List.foldl_cons, List.foldl_nil]

/-- Without such a label nothing changes. -/
theorem get_of_none (h : M.Run s tr t) (hid : ∀ a v, ¬ p a → V.act a v = v)
    (hno : ∀ a ∈ tr, ¬ p a) : V.get t = V.get s := by
  rw [V.get_run_filter h hid, List.filter_eq_nil_iff.mpr (by simpa using hno)]
  rfl

end View

end Vehicle.Trace
