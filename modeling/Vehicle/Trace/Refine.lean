import Vehicle.Trace.Lts

/-!
# Refinement with silent labels

A system refines another one when each of its labels stands for some labels of the other, none for a
label the other does not see: then its runs, with the labels translated, are runs of the other.
-/

namespace Vehicle.Trace

variable {σ ι τ κ : Type*}

/-- **Refinement.** What a label of `N` does, its translation does in `M`. -/
theorem Lts.Run.refine {N : Lts τ κ} {M : Lts σ ι} {R : τ → σ → Prop} {toM : κ → List ι} {t₀ : τ}
    {s₀ : σ} (h₀ : R t₀ s₀)
    (hstep : ∀ t s b t', R t s → N.step t b = some t' → ∃ s', M.Run s (toM b) s' ∧ R t' s')
    {tr : List κ} {t : τ} (h : N.Run t₀ tr t) : ∃ s, M.Run s₀ (tr.flatMap toM) s ∧ R t s := by
  induction h with
  | nil => exact ⟨s₀, .nil, h₀⟩
  | snoc _ hs ih =>
    obtain ⟨s, hr, hR⟩ := ih
    obtain ⟨s', hr', hR'⟩ := hstep _ s _ _ hR hs
    refine ⟨s', ?_, hR'⟩
    rw [List.flatMap_append, List.flatMap_cons, List.flatMap_nil, List.append_nil]
    exact hr.trans hr'

end Vehicle.Trace
