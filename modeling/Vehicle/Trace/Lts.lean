import Mathlib.Data.List.Count
import Mathlib.Data.List.Induction
import Mathlib.Tactic.Common

/-!
# Labelled transition systems with an executable step

A system is a set of initial states and a partial step function reading a label. A run is the list
of the labels executed, grown at its end, so that a history (how often, in which order) is a
statement about that list and an invariant may speak of the list and the state together.

A system that another one follows step by step has no runs but those of the other
(`Run.simulate`). `CanReach P s` is the possibility modality: some run from `s` ends in a state with
`P`. The rules below are the ones used to build such runs: sequencing (`CanReach.bind`) and a
measure (`CanReach.of_measure`).
-/

namespace Vehicle.Trace

/-- A labelled transition system: where it starts, and the step under a label (`none` when the
label is not enabled). -/
structure Lts (σ ι : Type*) where
  init : σ → Prop
  step : σ → ι → Option σ

variable {σ ι : Type*} {M : Lts σ ι}

/-- `M.Run s tr t`: the labels `tr`, in this order, lead from `s` to `t`. -/
inductive Lts.Run (M : Lts σ ι) (s : σ) : List ι → σ → Prop
  | nil : Run M s [] s
  | snoc {tr : List ι} {t u : σ} {a : ι} : Run M s tr t → M.step t a = some u →
      Run M s (tr ++ [a]) u

/-- The states a run from an initial state ends in. -/
def Lts.Reachable (M : Lts σ ι) (s : σ) : Prop := ∃ s₀ tr, M.init s₀ ∧ M.Run s₀ tr s

namespace Lts.Run

theorem single {s t : σ} {a : ι} (h : M.step s a = some t) : M.Run s [a] t :=
  Run.snoc Run.nil h

theorem trans {s t u : σ} {tr tr' : List ι} (h : M.Run s tr t) (h' : M.Run t tr' u) :
    M.Run s (tr ++ tr') u := by
  induction h' with
  | nil => simpa using h
  | snoc _ hs ih => rw [← List.append_assoc]; exact Run.snoc ih hs

theorem nil_inv {s t : σ} (h : M.Run s [] t) : s = t := by
  generalize he : ([] : List ι) = tr at h
  cases h with
  | nil => rfl
  | snoc _ _ => simp at he

theorem snoc_inv {s u : σ} {tr : List ι} {a : ι} (h : M.Run s (tr ++ [a]) u) :
    ∃ t, M.Run s tr t ∧ M.step t a = some u := by
  generalize he : tr ++ [a] = w at h
  cases h with
  | nil => simp at he
  | snoc h hs =>
    obtain ⟨rfl, rfl⟩ := List.append_inj' he rfl |>.imp id (fun h => List.cons_eq_cons.mp h |>.1)
    exact ⟨_, h, hs⟩

/-- The labels fix where a run ends. -/
theorem det {s t u : σ} {tr : List ι} (h : M.Run s tr t) (h' : M.Run s tr u) : t = u := by
  induction h generalizing u with
  | nil => exact h'.nil_inv
  | snoc _ hs ih =>
    obtain ⟨v, hv, hs'⟩ := h'.snoc_inv
    obtain rfl := ih hv
    exact Option.some.inj (hs.symm.trans hs')

/-- A run cut at any place of its list of labels. -/
theorem append_inv {s u : σ} {tr tr' : List ι} (h : M.Run s (tr ++ tr') u) :
    ∃ t, M.Run s tr t ∧ M.Run t tr' u := by
  induction tr' using List.reverseRecOn generalizing u with
  | nil => exact ⟨u, by simpa using h, Run.nil⟩
  | append_singleton tr' a ih =>
    rw [← List.append_assoc] at h
    obtain ⟨v, hv, hs⟩ := h.snoc_inv
    obtain ⟨t, ht, ht'⟩ := ih hv
    exact ⟨t, ht, Run.snoc ht' hs⟩

theorem cons_inv {s u : σ} {tr : List ι} {a : ι} (h : M.Run s (a :: tr) u) :
    ∃ t, M.step s a = some t ∧ M.Run t tr u := by
  obtain ⟨t, ht, hr⟩ := (show M.Run s ([a] ++ tr) u from h).append_inv
  obtain ⟨v, hv, hs⟩ := (show M.Run s ([] ++ [a]) t from ht).snoc_inv
  rw [hv.nil_inv]
  exact ⟨t, hs, hr⟩

/-- The step behind a part of a run. -/
theorem step_at {s t u : σ} {tr tr' : List ι} {a : ι} (h : M.Run s (tr ++ a :: tr') u)
    (ht : M.Run s tr t) : ∃ v, M.step t a = some v ∧ M.Run v tr' u := by
  obtain ⟨t', ht', hr⟩ := h.append_inv
  obtain rfl := ht.det ht'
  exact hr.cons_inv

/-- The state in which an event of a run is executed. -/
theorem at_event {s u : σ} {tr : List ι} {n : ℕ} {a : ι} (h : M.Run s tr u)
    (hn : tr[n]? = some a) : ∃ t v, M.Run s (tr.take n) t ∧ M.step t a = some v := by
  obtain ⟨hlt, rfl⟩ := List.getElem?_eq_some_iff.mp hn
  have hsplit : tr = tr.take n ++ tr[n] :: tr.drop (n + 1) := by
    rw [List.getElem_cons_drop, List.take_append_drop]
  rw [hsplit] at h
  obtain ⟨t, ht, hr⟩ := h.append_inv
  obtain ⟨v, hs, -⟩ := hr.cons_inv
  exact ⟨t, v, ht, hs⟩

/-- **Invariants with history.** What holds of the empty run and is kept by every step taken after
a run holds after every run. -/
theorem inv {s₀ : σ} {I : List ι → σ → Prop} (h₀ : I [] s₀)
    (hstep : ∀ tr s a t, M.Run s₀ tr s → I tr s → M.step s a = some t → I (tr ++ [a]) t) :
    ∀ {tr s}, M.Run s₀ tr s → I tr s := by
  intro tr s h
  induction h with
  | nil => exact h₀
  | snoc h hs ih => exact hstep _ _ _ _ h ih hs

/-- The same, for the runs all of whose labels have `P`. -/
theorem inv_forall {s₀ : σ} {P : ι → Prop} {I : List ι → σ → Prop} (h₀ : I [] s₀)
    (hstep : ∀ tr s a t, I tr s → P a → M.step s a = some t → I (tr ++ [a]) t) {tr : List ι}
    {s : σ} (h : M.Run s₀ tr s) (hP : ∀ a ∈ tr, P a) : I tr s := by
  refine h.inv (I := fun tr s => (∀ a ∈ tr, P a) → I tr s) (fun _ => h₀) ?_ hP
  intro tr s a t _ ih hs hP
  exact hstep tr s a t (ih fun b hb => hP b (List.mem_append_left _ hb)) (hP a (by simp)) hs

/-- **Budgets.** Where every step that uses a unit takes it from what the state has left, and only
the granting steps give a unit back, the uses of a run are covered by what it started with and the
grants. -/
theorem budget {s₀ : σ} {P : ι → Prop} {J : σ → Prop} {A B : ι → Bool} (left : σ → ℕ) (h₀ : J s₀)
    (hJ : ∀ s a t, J s → P a → M.step s a = some t → J t)
    (hstep : ∀ s a t, J s → P a → M.step s a = some t →
      (if A a then 1 else 0) + left t ≤ left s + if B a then 1 else 0)
    {tr : List ι} {s : σ} (h : M.Run s₀ tr s) (hP : ∀ a ∈ tr, P a) :
    tr.countP A + left s ≤ left s₀ + tr.countP B := by
  have key : (J s ∧ tr.countP A + left s ≤ left s₀ + tr.countP B) := by
    refine h.inv_forall (P := P)
      (I := fun tr s => J s ∧ tr.countP A + left s ≤ left s₀ + tr.countP B) ⟨h₀, by simp⟩ ?_ hP
    rintro tr s a t ⟨hs, hle⟩ ha hst
    refine ⟨hJ s a t hs ha hst, ?_⟩
    have := hstep s a t hs ha hst
    rw [List.countP_append, List.countP_append, List.countP_singleton, List.countP_singleton]
    omega
  exact key.2

end Lts.Run

/-! ### Conditions on the steps of a run -/

/-- Every step of the run `tr` from `s₀` is taken in a state that satisfies `C` with its label. -/
def Lts.Along (M : Lts σ ι) (s₀ : σ) (C : σ → ι → Prop) (tr : List ι) : Prop :=
  ∀ pre a post u, tr = pre ++ a :: post → M.Run s₀ pre u → C u a

/-- **Invariants of the runs whose steps meet a condition.** -/
theorem Lts.Run.inv_along {s₀ : σ} {C : σ → ι → Prop} {I : List ι → σ → Prop} (h₀ : I [] s₀)
    (hstep : ∀ tr s a t, I tr s → C s a → M.step s a = some t → I (tr ++ [a]) t) {tr : List ι}
    {s : σ} (h : M.Run s₀ tr s) (hC : M.Along s₀ C tr) : I tr s := by
  refine h.inv (I := fun tr s => M.Along s₀ C tr → I tr s) (fun _ => h₀) ?_ hC
  intro tr s a t hr ih hs hC
  have hpre : M.Along s₀ C tr := fun pre b post u he hu =>
    hC pre b (post ++ [a]) u (by rw [he]; simp) hu
  exact hstep tr s a t (ih hpre) (hC tr a [] s rfl hr) hs

/-! ### Simulation -/

/-- **Simulation with history.** A system whose steps another one can follow, step by step and label
by label, keeping a relation, has no runs but those of the other. -/
theorem Lts.Run.simulate {τ : Type*} {N : Lts τ ι} {s₀ : σ} {t₀ : τ} {R : List ι → σ → τ → Prop}
    (h₀ : R [] s₀ t₀)
    (hstep : ∀ tr s t a s', N.Run t₀ tr t → R tr s t → M.step s a = some s' →
      ∃ t', N.step t a = some t' ∧ R (tr ++ [a]) s' t')
    {tr : List ι} {s : σ} (h : M.Run s₀ tr s) : ∃ t, N.Run t₀ tr t ∧ R tr s t := by
  induction h with
  | nil => exact ⟨t₀, .nil, h₀⟩
  | snoc _ hs ih =>
    obtain ⟨t, ht, hR⟩ := ih
    obtain ⟨t', ht', hR'⟩ := hstep _ _ t _ _ ht hR hs
    exact ⟨t', ht.snoc ht', hR'⟩

/-! ### Executing a list of labels -/

/-- The state after a list of labels, if every one of them was enabled. -/
def Lts.exec (M : Lts σ ι) : σ → List ι → Option σ
  | s, [] => some s
  | s, a :: tr => (M.step s a).bind fun t => M.exec t tr

theorem Lts.run_of_exec {s t : σ} {tr : List ι} (h : M.exec s tr = some t) : M.Run s tr t := by
  induction tr generalizing s with
  | nil => cases h; exact Run.nil
  | cons a tr ih =>
    obtain ⟨u, hu, ht⟩ := Option.bind_eq_some_iff.mp h
    exact (Run.single hu).trans (ih ht)

theorem Lts.exec_append (M : Lts σ ι) (s : σ) (tr tr' : List ι) :
    M.exec s (tr ++ tr') = (M.exec s tr).bind fun t => M.exec t tr' := by
  induction tr generalizing s with
  | nil => rfl
  | cons a tr ih =>
    simp only [List.cons_append, exec]
    cases M.step s a with
    | none => rfl
    | some t => exact ih t

/-- A run given by its labels, to a state with a property that can be computed. -/
theorem Lts.exists_run {s : σ} (tr : List ι) {P : σ → Prop} [DecidablePred P]
    (h : ((M.exec s tr).any fun t => decide (P t)) = true) : ∃ t, M.Run s tr t ∧ P t := by
  obtain ⟨t, ht, hP⟩ := (Option.any_eq_true _ _).mp h
  exact ⟨t, Lts.run_of_exec ht, of_decide_eq_true hP⟩

/-! ### Reachability -/

namespace Lts.Reachable

/-- **Invariants.** What the initial states have and every step keeps, every reachable state has. -/
theorem inv {I : σ → Prop} (h₀ : ∀ s, M.init s → I s)
    (hstep : ∀ s a t, I s → M.step s a = some t → I t) {s : σ} (h : M.Reachable s) : I s := by
  obtain ⟨s₀, tr, hs₀, hr⟩ := h
  exact hr.inv (I := fun _ => I) (h₀ s₀ hs₀) fun _ s a t _ => hstep s a t

end Lts.Reachable

/-! ### Possibility -/

/-- Some run from `s` ends in a state with `P`. -/
def Lts.CanReach (M : Lts σ ι) (P : σ → Prop) (s : σ) : Prop := ∃ tr t, M.Run s tr t ∧ P t

namespace Lts.CanReach

variable {P Q : σ → Prop}

theorem refl {s : σ} (h : P s) : M.CanReach P s := ⟨[], s, Run.nil, h⟩

theorem mono {s : σ} (h : M.CanReach P s) (hPQ : ∀ t, P t → Q t) : M.CanReach Q s := by
  obtain ⟨tr, t, hr, ht⟩ := h
  exact ⟨tr, t, hr, hPQ t ht⟩

/-- **Sequencing.** -/
theorem bind {s : σ} (h : M.CanReach P s) (hPQ : ∀ t, P t → M.CanReach Q t) : M.CanReach Q s := by
  obtain ⟨tr, t, hr, ht⟩ := h
  obtain ⟨tr', u, hr', hu⟩ := hPQ t ht
  exact ⟨tr ++ tr', u, hr.trans hr', hu⟩

theorem step {s t : σ} {a : ι} (hs : M.step s a = some t) (h : M.CanReach P t) :
    M.CanReach P s := by
  obtain ⟨tr, u, hr, hu⟩ := h
  exact ⟨[a] ++ tr, u, (Run.single hs).trans hr, hu⟩

/-- **Possibility by a measure.** Where every state with `I` can reach one with `P`, or one with `I`
and a smaller measure, every state with `I` can reach one with `P`. -/
theorem of_measure {I : σ → Prop} (μ : σ → ℕ)
    (h : ∀ s, I s → M.CanReach (fun t => P t ∨ I t ∧ μ t < μ s) s) {s : σ} (hs : I s) :
    M.CanReach P s := by
  induction hn : μ s using Nat.strongRecOn generalizing s with
  | _ n ih =>
    subst hn
    refine (h s hs).bind fun t ht => ?_
    rcases ht with hP | ⟨hI, hlt⟩
    · exact refl hP
    · exact ih _ hlt hI rfl

/-- What every step keeps, and excludes `P`, puts `P` out of reach. -/
theorem not_of_inv {I : σ → Prop} (hstep : ∀ s a t, I s → M.step s a = some t → I t)
    (hP : ∀ s, I s → ¬ P s) {s : σ} (hs : I s) : ¬ M.CanReach P s := by
  rintro ⟨tr, t, hr, ht⟩
  have hI : I t := hr.inv (I := fun _ => I) hs fun _ s a t _ => hstep s a t
  exact hP t hI ht

end Lts.CanReach

/-- **Possible events.** Where every state with `I` can, by labels with `P`, execute an event with
`G` or come to a smaller measure, it can execute any number of these events. -/
theorem Lts.exists_events {I : σ → Prop} {P : ι → Prop} {G : ι → Bool} (μ : σ → ℕ)
    (h : ∀ s, I s → ∃ tr t, M.Run s tr t ∧ I t ∧ (∀ b ∈ tr, P b) ∧
      (0 < tr.countP G ∨ μ t < μ s)) (n : ℕ) {s : σ} (hs : I s) :
    ∃ tr t, M.Run s tr t ∧ I t ∧ (∀ b ∈ tr, P b) ∧ n ≤ tr.countP G := by
  have hone : ∀ m s, μ s = m → I s → ∃ tr t, M.Run s tr t ∧ I t ∧ (∀ b ∈ tr, P b) ∧
      0 < tr.countP G := by
    intro m
    induction m using Nat.strongRecOn with
    | _ m ih =>
      rintro s rfl hs
      obtain ⟨tr, t, hr, ht, hP, hpos | hlt⟩ := h s hs
      · exact ⟨tr, t, hr, ht, hP, hpos⟩
      · obtain ⟨tr', u, hr', hu, hP', hpos⟩ := ih (μ t) hlt t rfl ht
        refine ⟨tr ++ tr', u, hr.trans hr', hu, List.forall_mem_append.mpr ⟨hP, hP'⟩, ?_⟩
        rw [List.countP_append]
        omega
  induction n with
  | zero => exact ⟨[], s, Run.nil, hs, by simp, by simp⟩
  | succ n ih =>
    obtain ⟨tr, t, hr, ht, hP, hn⟩ := ih
    obtain ⟨tr', u, hr', hu, hP', hpos⟩ := hone (μ t) t rfl ht
    refine ⟨tr ++ tr', u, hr.trans hr', hu, List.forall_mem_append.mpr ⟨hP, hP'⟩, ?_⟩
    rw [List.countP_append]
    omega

end Vehicle.Trace
