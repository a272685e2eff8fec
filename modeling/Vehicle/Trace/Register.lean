import Vehicle.Trace.History
import Vehicle.Trace.Lts

/-!
# Registers

A register is a part of the state that only certain labels change, each to a value of its own. What
a register holds after a run is what the last of these labels has stored (`Register.content`), so a
statement about a value read is one about the position in the history at which it was stored.
-/

namespace Vehicle.Trace

variable {σ ι ν : Type*} {M : Lts σ ι}

/-- A register of a system: what it holds in a state, and what a label stores in it. -/
structure Register (M : Lts σ ι) (ν : Type*) where
  get : σ → ν
  store : ι → Option ν
  get_step : ∀ {s a t}, M.step s a = some t → get t = (store a).getD (get s)

/-- The last store before position `n` is the one at `w`, of the value `v`. -/
structure LastStore (store : ι → Option ν) (tr : List ι) (w n : ℕ) (v : ν) : Prop where
  stored : ∃ b, tr[w]? = some b ∧ store b = some v
  before : w < n
  last : FreeBetween (fun b => store b ≠ none) tr w n

namespace LastStore

variable {store : ι → Option ν} {tr : List ι} {w w' n : ℕ} {v : ν} {b : ι}

/-- A store before `n` does not stand behind the last one. -/
theorem le (h : LastStore store tr w n v) (hb : tr[w']? = some b) (hs : store b ≠ none)
    (hn : w' < n) : w' ≤ w := by
  by_contra hlt
  exact h.last w' b (by omega) hn hb hs

/-- In a prefix that ends at `n`. -/
theorem of_take (h : LastStore store (tr.take n) w n v) : LastStore store tr w n v := by
  obtain ⟨b, hb, hs⟩ := h.stored
  exact ⟨⟨b, (of_getElem?_take hb).2, hs⟩, h.before, h.last.of_take (Nat.le_refl n)⟩

end LastStore

namespace Register

variable (R : Register M ν) {s s₀ : σ} {tr : List ι}

/-- **What a register holds**: what was stored last, or, where nothing was stored, what it held at
the start. -/
theorem content (h : M.Run s₀ tr s) :
    ((∀ b ∈ tr, R.store b = none) ∧ R.get s = R.get s₀) ∨
      ∃ w, LastStore R.store tr w tr.length (R.get s) := by
  refine h.inv (I := fun tr s => ((∀ b ∈ tr, R.store b = none) ∧ R.get s = R.get s₀) ∨
    ∃ w, LastStore R.store tr w tr.length (R.get s)) (Or.inl ⟨by simp, rfl⟩) ?_
  intro tr s a t _ ih hs
  have hget := R.get_step hs
  cases ha : R.store a with
  | some v =>
    -- `a` is the last store now
    rw [ha, Option.getD_some] at hget
    rw [hget]
    refine Or.inr ⟨tr.length, ⟨a, by simp, ha⟩, by simp, FreeBetween.last⟩
  | none =>
    rw [ha, Option.getD_none] at hget
    rw [hget]
    rcases ih with ⟨hno, hold⟩ | ⟨w, ⟨b, hb, hv⟩, hlt, hlast⟩
    · refine Or.inl ⟨fun b hb => ?_, hold⟩
      rcases List.mem_append.mp hb with hb | hb
      · exact hno b hb
      · rw [List.mem_singleton.mp hb, ha]
    · refine Or.inr ⟨w, ⟨b, getElem?_snoc_of hb, hv⟩, ?_, hlast.extend (by simp [ha])⟩
      rw [List.length_append]
      omega

/-- The same after a part of a run, with the positions of the whole. -/
theorem content_take {n : ℕ} (h : M.Run s₀ (tr.take n) s) (hn : n ≤ tr.length) :
    ((∀ b ∈ tr.take n, R.store b = none) ∧ R.get s = R.get s₀) ∨
      ∃ w, LastStore R.store tr w n (R.get s) := by
  rcases R.content h with hno | ⟨w, hw⟩
  · exact Or.inl hno
  · rw [List.length_take_of_le hn] at hw
    exact Or.inr ⟨w, hw.of_take⟩

end Register

end Vehicle.Trace
